import Mathlib.Data.Set.Card
import Interlock.Proofs.Calls

/-!
# Tables as maps

A table is a map with finitely many keys: what is put in or taken out changes the map at one key, and the size is the
number of keys. A function on the values changes them all, and the keys stay in their places.
-/

namespace Interlock.Table

variable {κ α β : Type}

theorem ext_entries {es es' : Table κ α} (h : es.entries = es'.entries) : es = es' := by
  cases es
  cases es'
  cases h
  rfl

def map (f : α → β) (es : Table κ α) : Table κ β :=
  ⟨es.entries.map fun e => (e.1, f e.2), by simpa [Function.comp_def] using es.nodup_keys⟩

variable [DecidableEq κ]

theorem get?_insert_eq_update (es : Table κ α) (key : κ) (v : α) :
    (es.insert key v).get? = Function.update es.get? key (some v) := by
  funext k
  rw [get?_insert, Function.update_apply]
  by_cases h : key = k
  · rw [if_pos h, if_pos h.symm]
  · rw [if_neg h, if_neg (Ne.symm h)]

theorem get?_erase_eq_update (es : Table κ α) (key : κ) :
    (es.erase key).get? = Function.update es.get? key none := by
  funext k
  rw [get?_erase, Function.update_apply]
  by_cases h : key = k
  · rw [if_pos h, if_pos h.symm]
  · rw [if_neg h, if_neg (Ne.symm h)]

/-- The size of a table is the number of keys that it has a value for. -/
theorem size_eq_ncard (es : Table κ α) : es.size = {k | es.get? k ≠ none}.ncard := by
  have hkeys : {k | es.get? k ≠ none} = (es.keys.toFinset : Set κ) := by
    ext k
    rw [Set.mem_ofPred_eq, List.coe_toFinset, Set.mem_ofPred_eq, ← contains_iff, contains,
      Option.isSome_iff_ne_none]
  rw [hkeys, Set.ncard_coe_finset, List.toFinset_card_of_nodup (l := es.keys) es.nodup_keys,
    length_keys]

theorem size_eq_zero_iff (es : Table κ α) : (es.size == 0) = true ↔ ∀ k, es.get? k = none := by
  rw [beq_iff_eq, size, List.length_eq_zero_iff]
  constructor
  · intro h k
    rw [get?, h]
    rfl
  · intro h
    cases he : es.entries with
    | nil => rfl
    | cons e rest =>
      have hk := h e.1
      rw [get?, he, Entries.find, if_pos rfl] at hk
      cases hk

/-! ## Changing all values -/

theorem get?_map (f : α → β) (es : Table κ α) (key : κ) : (es.map f).get? key = (es.get? key).map f := by
  show Entries.find key (es.entries.map _) = (Entries.find key es.entries).map f
  induction es.entries with
  | nil => rfl
  | cons e rest ih => by_cases h : e.1 = key <;> simp [Entries.find, h, ih]

theorem map_insert (f : α → β) (es : Table κ α) (key : κ) (v : α) :
    (es.insert key v).map f = (es.map f).insert key (f v) := by
  refine ext_entries ?_
  show (Entries.put key v es.entries).map _ = Entries.put key (f v) (es.entries.map _)
  induction es.entries with
  | nil => rfl
  | cons e rest ih => by_cases h : e.1 = key <;> simp [Entries.put, h, ih]

theorem map_erase (f : α → β) (es : Table κ α) (key : κ) : (es.erase key).map f = (es.map f).erase key := by
  refine ext_entries ?_
  show (Entries.drop key es.entries).map _ = Entries.drop key (es.entries.map _)
  rw [Entries.drop, Entries.drop, List.filter_map]
  rfl

theorem map_id_of {f : α → α} {es : Table κ α} (h : ∀ key v, es.get? key = some v → f v = v) : es.map f = es := by
  refine ext_entries ?_
  show es.entries.map _ = es.entries
  refine (List.map_congr_left fun e he => ?_).trans (List.map_id _)
  have hv := h e.1 e.2 (Entries.find_of_mem es.nodup_keys he)
  rw [hv]
  rfl

theorem insert_insert (es : Table κ α) (key : κ) (v w : α) : (es.insert key v).insert key w = es.insert key w :=
  ext_entries (Entries.put_put v w es.entries)

theorem insert_self {es : Table κ α} {key : κ} {v : α} (h : es.get? key = some v) : es.insert key v = es :=
  ext_entries (Entries.put_self h)

end Interlock.Table
