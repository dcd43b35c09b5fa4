import Mathlib.Algebra.BigOperators.Group.List.Basic
import Interlock.Thread

/-!
# Entries and the calls of one thread

`Entries.total` sums a quantity over the values of a list of entries, and changing one entry changes the
sum by the difference. Changes at different keys can change places. `Calls.of` lists the phases of the calls
that one thread is inside, the innermost first; a call of another thread never changes it, and makes no
difference if one of this thread is taken away (`Within`). On some objects no thread is ever inside two (`Single`). `HeldIn` ties
the holder of a mutex to the phases in which a call has it.
-/

namespace Interlock

instance : Inhabited Environment := ⟨⟨.array, .table, 0⟩⟩

/-- There is no storage to be had. -/
def Environment.refusing : Environment := ⟨fun _ _ => .error .refused, fun _ _ => .error .refused, 0⟩

namespace Entries

variable {κ β M : Type} [AddCommMonoid M] (f : β → M)

def total (es : List (κ × β)) : M := (es.map fun e => f e.2).sum

@[simp] theorem total_nil : total f ([] : List (κ × β)) = 0 := rfl

@[simp] theorem total_cons (e : κ × β) (es : List (κ × β)) : total f (e :: es) = f e.2 + total f es := by
  simp [total]

variable [DecidableEq κ]

theorem total_put (k : κ) (v : β) (es : List (κ × β)) :
    total f (put k v es) + (find k es).elim 0 f = total f es + f v := by
  induction es with
  | nil => simp [put, find]
  | cons e es ih =>
    obtain ⟨k', v'⟩ := e
    by_cases h : k' = k
    · simp only [put, find, if_pos h, total_cons, Option.elim_some]
      ac_rfl
    · simp only [put, find, if_neg h, total_cons]
      rw [add_assoc, ih, add_assoc]

theorem drop_eq_self {k : κ} {es : List (κ × β)} (h : k ∉ es.map Prod.fst) : drop k es = es := by
  unfold drop
  rw [List.filter_eq_self]
  intro e he
  have : e.1 ≠ k := fun hk => h (hk ▸ List.mem_map_of_mem he)
  simp [this]

theorem total_drop {k : κ} {es : List (κ × β)} (h : (es.map Prod.fst).Nodup) :
    total f (drop k es) + (find k es).elim 0 f = total f es := by
  induction es with
  | nil => simp [drop, find]
  | cons e es ih =>
    obtain ⟨k', v⟩ := e
    rw [List.map_cons, List.nodup_cons] at h
    by_cases hk : k' = k
    · subst hk
      have hd : drop k' ((k', v) :: es) = es := by
        rw [← drop_eq_self h.1]
        simp [drop]
      simp only [hd, find, if_pos, Option.elim_some, total_cons]
      exact add_comm _ _
    · have hd : drop k ((k', v) :: es) = (k', v) :: drop k es := by simp [drop, hk]
      simp only [hd, find, if_neg hk, total_cons, add_assoc, ih h.2]

theorem total_eraseP (k : κ) (es : List (κ × β)) :
    total f (es.eraseP fun e => e.1 = k) + (find k es).elim 0 f = total f es := by
  induction es with
  | nil => simp [find]
  | cons e es ih =>
    obtain ⟨k', v⟩ := e
    by_cases h : k' = k
    · subst h
      simp only [decide_true, List.eraseP_cons_of_pos, find, if_pos, Option.elim_some, total_cons]
      exact add_comm _ _
    · rw [List.eraseP_cons_of_neg (by simp [h])]
      simp only [find, if_neg h, total_cons, add_assoc, ih]

theorem mem_of_find {k : κ} {v : β} {es : List (κ × β)} (h : find k es = some v) : (k, v) ∈ es := by
  induction es with
  | nil => cases h
  | cons e es ih =>
    obtain ⟨k', v'⟩ := e
    unfold find at h
    split at h
    · rename_i hk
      cases h
      exact hk ▸ List.mem_cons_self
    · exact List.mem_cons_of_mem _ (ih h)

theorem find_of_mem {k : κ} {v : β} {es : List (κ × β)} (h : (es.map Prod.fst).Nodup) (hmem : (k, v) ∈ es) :
    find k es = some v := by
  induction es with
  | nil => cases hmem
  | cons e es ih =>
    obtain ⟨k', v'⟩ := e
    rw [List.map_cons, List.nodup_cons] at h
    rcases List.mem_cons.mp hmem with he | hmem
    · cases he
      exact if_pos rfl
    · have hk : k' ≠ k := by
        rintro rfl
        exact h.1 (List.mem_map.mpr ⟨_, hmem, rfl⟩)
      rw [find, if_neg hk, ih h.2 hmem]

/-! ## Entries changed in two places -/

section
variable {k k' : κ}

theorem put_put (v w : β) (es : List (κ × β)) : put k w (put k v es) = put k w es := by
  induction es with
  | nil => simp [put]
  | cons e es ih =>
    obtain ⟨x, y⟩ := e
    by_cases hx : x = k
    · simp [put, hx]
    · simp [put, hx, ih]

theorem put_self {v : β} {es : List (κ × β)} (hk : find k es = some v) : put k v es = es := by
  induction es with
  | nil => cases hk
  | cons e es ih =>
    obtain ⟨x, y⟩ := e
    by_cases hx : x = k
    · subst hx
      simp only [find, if_true, Option.some.injEq] at hk
      simp [put, hk]
    · simp only [find, if_neg hx] at hk
      simp [put, hx, ih hk]

theorem put_comm (hne : k ≠ k') {u v w : β} {es : List (κ × β)} (hk : find k es = some u) :
    put k' w (put k v es) = put k v (put k' w es) := by
  induction es with
  | nil => cases hk
  | cons e es ih =>
    obtain ⟨x, y⟩ := e
    by_cases hx : x = k
    · subst hx
      simp [put, hne]
    · by_cases hx' : x = k'
      · subst hx'
        simp [put, hx]
      · simp only [find, if_neg hx] at hk
        simp [put, hx, hx', ih hk]

theorem eraseP_put (v : β) (es : List (κ × β)) :
    (put k v es).eraseP (fun e => e.1 = k) = es.eraseP fun e => e.1 = k := by
  induction es with
  | nil => simp [put]
  | cons e es ih =>
    obtain ⟨x, y⟩ := e
    by_cases hx : x = k
    · simp [put, hx]
    · simp only [put, if_neg hx]
      rw [List.eraseP_cons_of_neg (by simp [hx]), List.eraseP_cons_of_neg (by simp [hx]), ih]

theorem eraseP_put_of_ne (hne : k ≠ k') (v : β) (es : List (κ × β)) :
    (put k v es).eraseP (fun e => e.1 = k') = put k v (es.eraseP fun e => e.1 = k') := by
  induction es with
  | nil => simp [put, hne]
  | cons e es ih =>
    obtain ⟨x, y⟩ := e
    by_cases hx : x = k
    · subst hx
      simp only [put, if_true]
      rw [List.eraseP_cons_of_neg (by simp [hne]), List.eraseP_cons_of_neg (by simp [hne])]
      simp [put]
    · by_cases hx' : x = k'
      · subst hx'
        simp [put, hx]
      · simp only [put, if_neg hx]
        rw [List.eraseP_cons_of_neg (by simp [hx']), List.eraseP_cons_of_neg (by simp [hx']), ih]
        simp [put, hx]

end

end Entries

theorem Table.mem_toList {κ β : Type} [DecidableEq κ] (t : Table κ β) {k : κ} {v : β} :
    (k, v) ∈ t.toList ↔ t.get? k = some v :=
  ⟨Entries.find_of_mem t.nodup_keys, Entries.mem_of_find⟩

namespace Calls

variable {φ : Type}

/-- The phases of the calls of the thread, the innermost first. -/
def of (c : Calls φ) (t : ThreadId) : List φ :=
  c.pending.filterMap fun e => if e.1 = t then some e.2 else none

theorem head?_of (c : Calls φ) (t : ThreadId) : (c.of t).head? = c.current? t := by
  unfold of current?
  induction c.pending with
  | nil => rfl
  | cons e es ih =>
    obtain ⟨u, p⟩ := e
    by_cases h : u = t
    · simp [Entries.find, h]
    · simpa [Entries.find, h] using ih

@[simp] theorem of_start (c : Calls φ) (t u : ThreadId) (p : φ) :
    (c.start t p).of u = if t = u then p :: c.of u else c.of u := by
  by_cases h : t = u <;> simp [of, start, h]

@[simp] theorem of_move (c : Calls φ) (t u : ThreadId) (p : φ) :
    (c.move t p).of u = if t = u then p :: (c.of u).tail else c.of u := by
  unfold of move
  induction c.pending with
  | nil => by_cases h : t = u <;> simp [Entries.put, h]
  | cons e es ih =>
    obtain ⟨v, q⟩ := e
    by_cases hv : v = t
    · subst hv
      by_cases h : v = u <;> simp [Entries.put, h]
    · by_cases hu : v = u
      · have : t ≠ u := fun h => hv (hu.trans h.symm)
        simp only [Entries.put, if_neg hv, List.filterMap_cons, if_pos hu, ih, if_neg this]
      · simp only [Entries.put, if_neg hv, List.filterMap_cons, if_neg hu, ih]

@[simp] theorem of_finish (c : Calls φ) (t u : ThreadId) :
    (c.finish t).of u = if t = u then (c.of u).tail else c.of u := by
  unfold of finish
  induction c.pending with
  | nil => simp
  | cons e es ih =>
    obtain ⟨v, q⟩ := e
    by_cases hv : v = t
    · subst hv
      by_cases h : v = u <;> simp [h]
    · rw [List.eraseP_cons_of_neg (by simp [hv])]
      by_cases hu : v = u
      · have : t ≠ u := fun h => hv (hu.trans h.symm)
        simp only [List.filterMap_cons, if_pos hu, ih, if_neg this]
      · simp only [List.filterMap_cons, if_neg hu, ih]

theorem of_eq_cons {c : Calls φ} {t : ThreadId} {p : φ} (h : c.current? t = some p) :
    c.of t = p :: (c.of t).tail := by
  rw [← head?_of] at h
  exact (List.cons_head?_tail h).symm

theorem of_eq_nil {c : Calls φ} {t : ThreadId} (h : c.current? t = none) : c.of t = [] := by
  rw [← head?_of] at h
  exact List.head?_eq_none_iff.mp h

theorem current?_eq_of_cons {c : Calls φ} {t : ThreadId} {p : φ} {ps : List φ} (h : c.of t = p :: ps) :
    c.current? t = some p := by
  rw [← head?_of, h, List.head?_cons]

theorem current?_finish (c : Calls φ) (t u : ThreadId) :
    (c.finish t).current? u = if t = u then (c.of u).tail.head? else c.current? u := by
  rw [← head?_of, of_finish]
  split
  · rfl
  · exact head?_of c u

theorem mem_of {c : Calls φ} {t : ThreadId} {p : φ} : p ∈ c.of t ↔ (t, p) ∈ c.pending := by
  unfold of
  rw [List.mem_filterMap]
  constructor
  · intro ⟨⟨u, q⟩, he, h⟩
    by_cases hu : u = t
    · rw [if_pos hu] at h
      cases h
      exact hu ▸ he
    · rw [if_neg hu] at h
      cases h
  · intro h
    exact ⟨(t, p), h, if_pos rfl⟩

/-! ## A call taken away -/

section
variable {t u : ThreadId}

theorem move_move (c : Calls φ) (t : ThreadId) (p q : φ) : (c.move t p).move t q = c.move t q :=
  congrArg Calls.mk (Entries.put_put ..)

theorem move_start (c : Calls φ) (t : ThreadId) (p q : φ) : (c.start t p).move t q = c.start t q := by
  simp [start, move, Entries.put]

theorem finish_start_self (c : Calls φ) (t : ThreadId) (p : φ) : (c.start t p).finish t = c := by
  simp [start, finish]

theorem finish_move_self (c : Calls φ) (t : ThreadId) (p : φ) : (c.move t p).finish t = c.finish t :=
  congrArg Calls.mk (Entries.eraseP_put p c.pending)

theorem finish_start (hne : u ≠ t) (c : Calls φ) (p : φ) : (c.start u p).finish t = (c.finish t).start u p := by
  simp [start, finish, hne]

theorem finish_move (hne : u ≠ t) (c : Calls φ) (p : φ) : (c.move u p).finish t = (c.finish t).move u p :=
  congrArg Calls.mk (Entries.eraseP_put_of_ne hne p c.pending)

theorem finish_finish (hne : u ≠ t) (c : Calls φ) : (c.finish u).finish t = (c.finish t).finish u := by
  refine congrArg Calls.mk (List.eraseP_comm fun e _ => ?_)
  by_cases he : e.1 = u
  · exact .inr (by simp [he, hne])
  · exact .inl (by simp [he])

theorem current?_finish_of_ne (hne : u ≠ t) (c : Calls φ) : (c.finish t).current? u = c.current? u := by
  rw [current?_finish, if_neg (Ne.symm hne)]

/-- What is read off the calls does not depend on one that it passes over. -/
theorem filterMap_finish {β : Type} {f : ThreadId × φ → Option β} {c : Calls φ} {p : φ} (hp : c.current? t = some p)
    (hf : f (t, p) = none) : (c.finish t).pending.filterMap f = c.pending.filterMap f := by
  obtain ⟨es⟩ := c
  change Entries.find t es = some p at hp
  show (es.eraseP fun e => e.1 = t).filterMap f = es.filterMap f
  induction es with
  | nil => rfl
  | cons e es ih =>
    obtain ⟨u, q⟩ := e
    by_cases hu : u = t
    · subst hu
      rw [Entries.find, if_pos rfl] at hp
      obtain rfl := Option.some.inj hp
      rw [List.eraseP_cons_of_pos (by simp), List.filterMap_cons_none hf]
    · rw [Entries.find, if_neg hu] at hp
      rw [List.eraseP_cons_of_neg (by simp [hu]), List.filterMap_cons, List.filterMap_cons, ih hp]

end

/-- The function changes the calls of this thread alone. -/
structure Within (u : ThreadId) (f : Calls φ → Calls φ) : Prop where
  others {t : ThreadId} (hne : u ≠ t) (c : Calls φ) : (f c).current? t = c.current? t
  commutes {t : ThreadId} (hne : u ≠ t) (c : Calls φ) : (f c).finish t = f (c.finish t)

namespace Within

variable (u : ThreadId)

theorem start (p : φ) : Within u fun c => c.start u p :=
  ⟨fun hne c => by rw [current?_start, if_neg hne], fun hne c => finish_start hne c p⟩

theorem move (p : φ) : Within u fun c => c.move u p :=
  ⟨fun hne c => by rw [current?_move, if_neg hne], fun hne c => finish_move hne c p⟩

theorem finish : Within u fun c : Calls φ => c.finish u :=
  ⟨fun hne c => current?_finish_of_ne (Ne.symm hne) c, fun hne c => finish_finish hne c⟩

end Within

def Single (c : Calls φ) : Prop := ∀ t, (c.of t).length ≤ 1

namespace Single

variable {c : Calls φ} (hc : c.Single)
include hc

theorem tail_of (t : ThreadId) : (c.of t).tail = [] := by
  rw [← List.length_eq_zero_iff, List.length_tail]
  have := hc t
  omega

theorem mem_of {t : ThreadId} {p : φ} : p ∈ c.of t ↔ c.current? t = some p := by
  constructor
  · intro h
    cases hp : c.current? t with
    | none => rw [of_eq_nil hp] at h; cases h
    | some p' =>
      rw [of_eq_cons hp, hc.tail_of, List.mem_singleton] at h
      rw [h]
  · intro h
    rw [of_eq_cons h]
    exact List.mem_cons_self

theorem start {t : ThreadId} (h : c.current? t = none) (p : φ) : (c.start t p).Single := by
  intro u
  by_cases hu : t = u
  · subst hu
    simp [of_eq_nil h]
  · simpa [hu] using hc u

theorem move (t : ThreadId) (p : φ) : (c.move t p).Single := by
  intro u
  by_cases hu : t = u
  · simp [hu, hc.tail_of]
  · simpa [hu] using hc u

theorem finish (t : ThreadId) : (c.finish t).Single := by
  intro u
  by_cases hu : t = u
  · simp [hu, hc.tail_of]
  · simpa [hu] using hc u

theorem current?_finish (t u : ThreadId) :
    (c.finish t).current? u = if t = u then none else c.current? u := by
  rw [Calls.current?_finish, hc.tail_of, List.head?_nil]

end Single

/-! ## Who has a mutex -/

end Calls

/-- The mutex after it has been let go by a call that may have it. -/
def Mutex.letGo (m : Mutex) (has : Bool) : Mutex := if has then m.release false else m

theorem Mutex.letGo_acquired {m m' : Mutex} {t : ThreadId} (h : m.acquire? t = some m') : m'.letGo true = m := by
  obtain ⟨hfree, rfl⟩ := acquire?_eq_some h
  simp [letGo, release, ← hfree]

namespace Calls

variable {φ : Type}

/-- The holder is the one thread whose innermost call is in a phase that has the mutex. -/
def HeldIn (has : φ → Bool) (holder : Option ThreadId) (c : Calls φ) : Prop :=
  ∀ t, holder = some t ↔ ∃ p, c.current? t = some p ∧ has p = true

namespace HeldIn

variable {has : φ → Bool} {holder : Option ThreadId} {c : Calls φ} {t u : ThreadId} {p p' q : φ}

theorem of_free (h : c.HeldIn has none) (hp : c.current? t = some p) : has p = false := by
  by_contra hhas
  cases (h t).mpr ⟨p, hp, by simpa using hhas⟩

theorem of_ne (h : c.HeldIn has holder) (hne : u ≠ t) (hq : c.current? u = some q) (hhas : has q = true)
    (hp : c.current? t = some p) : has p = false := by
  by_contra hboth
  have hu := (h u).mpr ⟨q, hq, hhas⟩
  rw [(h t).mpr ⟨p, hp, by simpa using hboth⟩] at hu
  exact hne (Option.some.inj hu).symm

/-- A change to the calls of one thread, which neither takes the mutex nor lets it go. -/
theorem congr {c' : Calls φ} (h : c.HeldIn has holder) (others : ∀ u, t ≠ u → c'.current? u = c.current? u)
    (ht : (∃ q, c'.current? t = some q ∧ has q = true) ↔ ∃ q, c.current? t = some q ∧ has q = true) :
    c'.HeldIn has holder := by
  intro u
  rw [h u]
  by_cases hu : t = u
  · exact hu ▸ ht.symm
  · rw [others u hu]

theorem keep (h : c.HeldIn has holder) (ht : c.current? t = some p) (hsame : has p' = has p) :
    (c.move t p').HeldIn has holder := by
  refine h.congr (t := t) (fun u hu => by simp [hu]) ?_
  simp [ht, hsame]

theorem start (h : c.HeldIn has holder) (ht : ∀ q, c.current? t = some q → has q = false)
    (hp : has p = false) : (c.start t p).HeldIn has holder := by
  refine h.congr (t := t) (fun u hu => by simp [hu]) (iff_of_false ?_ ?_)
  · simp [hp]
  · rintro ⟨q, hq, hhas⟩
    rw [ht q hq] at hhas
    cases hhas

theorem finish (h : c.HeldIn has holder) (ht : c.current? t = some p) (hp : has p = false)
    (houter : ∀ q ∈ (c.of t).tail, has q = false) : (c.finish t).HeldIn has holder := by
  refine h.congr (t := t) (fun u hu => by rw [current?_finish, if_neg hu]) (iff_of_false ?_ ?_)
  · rw [current?_finish, if_pos rfl]
    rintro ⟨q, hq, hhas⟩
    rw [houter q (List.mem_of_head? hq)] at hhas
    cases hhas
  · simp [ht, hp]

theorem take (h : c.HeldIn has none) (hp : has p = true) : (c.move t p).HeldIn has (some t) := by
  intro u
  by_cases hu : t = u
  · simp [hu, hp]
  · have := h u
    simp only [reduceCtorEq, false_iff] at this
    simp [hu, this]

theorem leave (h : c.HeldIn has holder) (ht : c.current? t = some p) (hp : has p = true)
    (hp' : has p' = false) : (c.move t p').HeldIn has none := by
  have hm : holder = some t := (h t).mpr ⟨p, ht, hp⟩
  intro u
  by_cases hu : t = u
  · simp [hu, hp']
  · have := h u
    rw [hm] at this
    simp only [Option.some.injEq, hu, false_iff] at this
    simp [hu, this]

end HeldIn

end Calls

end Interlock
