import Mathlib.Data.Nat.Basic
import Mathlib.Data.Option.Basic
import Mathlib.Order.Basic

/-!
# Related states

Two machines go the same way if the states that they come to are related, and one of them can move just if the other can.
So what a move makes of a state is compared by `Option.Rel`, and lists of states are compared place by place.
-/

namespace Interlock

/-! ## Optional states -/

section
variable {σ σ' τ τ' : Type} {R : σ → σ' → Prop} {S : τ → τ' → Prop}

theorem rel_map {o : Option σ} {o' : Option σ'} {f : σ → τ} {f' : σ' → τ'} (h : Option.Rel R o o')
    (hf : ∀ s s', R s s' → S (f s) (f' s')) : Option.Rel S (o.map f) (o'.map f') := by
  cases h with
  | none => exact .none
  | some hs => exact .some (hf _ _ hs)

theorem rel_bind {o : Option σ} {o' : Option σ'} {f : σ → Option τ} {f' : σ' → Option τ'} (h : Option.Rel R o o')
    (hf : ∀ s s', R s s' → Option.Rel S (f s) (f' s')) : Option.Rel S (o.bind f) (o'.bind f') := by
  cases h with
  | none => exact .none
  | some hs => exact hf _ _ hs

theorem bind_eq_of_rel {o : Option σ} {o' : Option σ'} {f : σ → Option τ} {f' : σ' → Option τ} (h : Option.Rel R o o')
    (hf : ∀ s s', R s s' → f' s' = f s) : o'.bind f' = o.bind f := by
  cases h with
  | none => rfl
  | some hs => exact hf _ _ hs

theorem bind_none_of_rel {o : Option σ} {o' : Option σ'} {f : σ → Option τ} (h : Option.Rel R o o')
    (hf : ∀ s s', R s s' → f s = none) : o.bind f = none := by
  cases h with
  | none => rfl
  | some hs => exact hf _ _ hs

theorem rel_mono {R' : σ → σ' → Prop} {o : Option σ} {o' : Option σ'} (h : Option.Rel R o o')
    (hR : ∀ s s', R s s' → R' s s') : Option.Rel R' o o' := by
  cases h with
  | none => exact .none
  | some hs => exact .some (hR _ _ hs)

theorem rel_refl (o : Option σ) : Option.Rel Eq o o := by
  cases o with
  | none => exact .none
  | some s => exact .some rfl

theorem rel_guard (p : Prop) [Decidable p] : Option.Rel (fun _ _ => p) (guard p : Option Unit) (guard p) := by
  by_cases hp : p
  · rw [guard, if_pos hp]
    exact .some hp
  · rw [guard, if_neg hp]
    exact .none

theorem rel_isSome {o : Option σ} {o' : Option σ'} (h : Option.Rel R o o') : o'.isSome = o.isSome := by
  cases h <;> rfl

end

/-! ## One way only -/

/-- Where there is a first state there is a second, and the two are related. -/
def Follows {σ σ' : Type} (R : σ → σ' → Prop) (o : Option σ) (o' : Option σ') : Prop :=
  ∀ s, o = some s → ∃ s', o' = some s' ∧ R s s'

section
variable {σ σ' τ τ' : Type} {R R' : σ → σ' → Prop} {S : τ → τ' → Prop} {o : Option σ} {o' : Option σ'}

theorem follows_refl {R : σ → σ → Prop} (hR : ∀ s, R s s) (o : Option σ) : Follows R o o := fun s hs => ⟨s, hs, hR s⟩

theorem follows_none (o' : Option σ') : Follows R none o' := nofun

theorem follows_some {s : σ} {s' : σ'} (h : R s s') : Follows R (some s) (some s') := by
  intro s₁ hs
  exact ⟨s', rfl, Option.some.inj hs ▸ h⟩

theorem follows_of_rel (h : Option.Rel R o o') : Follows R o o' := by
  cases h with
  | none => exact follows_none none
  | some hs => exact follows_some hs

theorem follows_mono (h : Follows R o o') (hR : ∀ s s', o = some s → R s s' → R' s s') : Follows R' o o' := by
  intro s hs
  obtain ⟨s', hs', hr⟩ := h s hs
  exact ⟨s', hs', hR s s' hs hr⟩

theorem rel_of_follows {R' : σ' → σ → Prop} (h : Follows R o o') (h' : Follows R' o' o) : Option.Rel R o o' := by
  cases o with
  | none =>
    cases o' with
    | none => exact .none
    | some s' =>
      obtain ⟨s, hs, -⟩ := h' s' rfl
      cases hs
  | some s =>
    obtain ⟨s', rfl, hr⟩ := h s rfl
    exact .some hr

theorem follows_map {f : σ → τ} {f' : σ' → τ'} (h : Follows R o o') (hf : ∀ s s', R s s' → S (f s) (f' s')) :
    Follows S (o.map f) (o'.map f') := by
  intro x hx
  obtain ⟨s, hs, rfl⟩ := Option.map_eq_some_iff.mp hx
  obtain ⟨s', rfl, hr⟩ := h s hs
  exact ⟨f' s', rfl, hf s s' hr⟩

theorem follows_bind {f : σ → Option τ} {f' : σ' → Option τ'} (h : Follows R o o')
    (hf : ∀ s s', o = some s → R s s' → Follows S (f s) (f' s')) : Follows S (o.bind f) (o'.bind f') := by
  intro x hx
  obtain ⟨s, hs, hx⟩ := Option.bind_eq_some_iff.mp hx
  obtain ⟨s', rfl, hr⟩ := h s hs
  exact hf s s' hs hr x hx

end

/-! ## Lists of states -/

section
variable {σ : Type} {R R' : Nat → σ → σ → Prop} {l l' : List σ} {i : Nat}

theorem rel_lt {S : σ → σ → Prop} {o : Option σ} (h : Option.Rel S l[i]? o) :
    Option.Rel (fun s s' => S s s' ∧ i < l.length) l[i]? o := by
  generalize hs : l[i]? = o at h ⊢
  cases h with
  | none => exact .none
  | some hr => exact .some ⟨hr, (List.getElem?_eq_some_iff.mp hs).1⟩

theorem rel_length (h : ∀ j, Option.Rel (R j) l[j]? l'[j]?) : l'.length = l.length := by
  refine eq_of_forall_lt_iff fun j => ?_
  simpa using Bool.eq_iff_iff.mp (rel_isSome (h j))

theorem rel_append {s s' : σ} (h : ∀ j, Option.Rel (R j) l[j]? l'[j]?) (hs : R l.length s s') (j : Nat) :
    Option.Rel (R j) (l ++ [s])[j]? (l' ++ [s'])[j]? := by
  rw [List.getElem?_append, List.getElem?_append, rel_length h]
  split
  · exact h j
  · rename_i hge
    rw [List.getElem?_singleton, List.getElem?_singleton]
    split
    · rename_i hj
      obtain rfl : j = l.length := Nat.le_antisymm (Nat.sub_eq_zero_iff_le.mp hj) (Nat.le_of_not_lt hge)
      exact .some hs
    · exact .none

theorem rel_modify {f f' : σ → σ} (h : ∀ j, Option.Rel (R j) l[j]? l'[j]?) (hf : ∀ s s', R i s s' → R' i (f s) (f' s'))
    (others : ∀ j, j ≠ i → R j = R' j) (j : Nat) : Option.Rel (R' j) (l.modify i f)[j]? (l'.modify i f')[j]? := by
  rw [List.getElem?_modify, List.getElem?_modify]
  refine rel_map (h j) fun s s' hs => ?_
  by_cases hj : i = j
  · subst hj
    rw [if_pos rfl, if_pos rfl]
    exact hf s s' hs
  · rw [if_neg hj, if_neg hj, ← others j (Ne.symm hj)]
    exact hs

theorem set_eq_modify (l : List σ) (i : Nat) (s : σ) : l.set i s = l.modify i fun _ => s := by
  refine List.ext_getElem? fun j => ?_
  rw [List.getElem?_set', List.getElem?_modify]
  by_cases hj : i = j
  · rw [if_pos hj]
    simp only [if_pos hj]
    rfl
  · simp [hj]

end

end Interlock
