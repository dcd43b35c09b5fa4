/-!
# Finite tables

A `Table` maps finitely many keys to values and keeps the keys in the order in which they were first
inserted. No key occurs twice, so its size is the number of distinct keys.
-/

namespace Interlock

namespace Entries

variable {κ : Type} {β : Type} [DecidableEq κ]

def find (k : κ) : List (κ × β) → Option β
  | [] => none
  | (k', v) :: rest => if k' = k then some v else find k rest

/-- The value at the key replaced in its place, or added at the end. -/
def put (k : κ) (v : β) : List (κ × β) → List (κ × β)
  | [] => [(k, v)]
  | (k', v') :: rest => if k' = k then (k, v) :: rest else (k', v') :: put k v rest

def drop (k : κ) (es : List (κ × β)) : List (κ × β) :=
  es.filter fun e => decide (e.1 ≠ k)

theorem mem_keys_put {k x : κ} {v : β} {es : List (κ × β)} :
    x ∈ (put k v es).map Prod.fst ↔ x = k ∨ x ∈ es.map Prod.fst := by
  induction es with
  | nil => simp [put]
  | cons e es ih =>
    obtain ⟨k', v'⟩ := e
    by_cases h : k' = k
    · simp [put, h]
    · simp only [put, if_neg h, List.map_cons, List.mem_cons, ih]
      grind

theorem nodup_keys_put {k : κ} {v : β} {es : List (κ × β)} (h : (es.map Prod.fst).Nodup) :
    ((put k v es).map Prod.fst).Nodup := by
  induction es with
  | nil => simp [put]
  | cons e es ih =>
    obtain ⟨k', v'⟩ := e
    rw [List.map_cons, List.nodup_cons] at h
    by_cases hk : k' = k
    · subst hk
      simpa [put] using h
    · simp only [put, if_neg hk, List.map_cons, List.nodup_cons]
      exact ⟨fun hm => (mem_keys_put.1 hm).elim hk h.1, ih h.2⟩

theorem nodup_keys_drop {k : κ} {es : List (κ × β)} (h : (es.map Prod.fst).Nodup) :
    ((drop k es).map Prod.fst).Nodup :=
  h.sublist ((List.filter_sublist).map Prod.fst)

theorem find_put {k x : κ} {v : β} {es : List (κ × β)} :
    find x (put k v es) = if k = x then some v else find x es := by
  induction es with
  | nil => simp [put, find]
  | cons e es ih =>
    obtain ⟨k', v'⟩ := e
    by_cases h : k' = k <;> by_cases hx : k' = x <;> grind [put, find]

theorem find_drop {k x : κ} {es : List (κ × β)} :
    find x (drop k es) = if k = x then none else find x es := by
  induction es with
  | nil => simp [drop, find]
  | cons e es ih =>
    obtain ⟨k', v'⟩ := e
    unfold drop at ih ⊢
    rw [List.filter_cons]
    by_cases h : k' = k
    · subst h
      rw [if_neg (by simp), ih]
      by_cases hx : k' = x <;> simp [find, hx]
    · rw [if_pos (by simp [h]), find, ih]
      by_cases hx : k' = x
      · subst hx
        simp [find, Ne.symm h]
      · simp [find, hx]

theorem find_isSome_iff {k : κ} {es : List (κ × β)} : (find k es).isSome ↔ k ∈ es.map Prod.fst := by
  induction es with
  | nil => simp [find]
  | cons e es ih =>
    obtain ⟨k', v⟩ := e
    by_cases h : k' = k
    · simp [find, h]
    · simp only [find, if_neg h, ih, List.map_cons, List.mem_cons, Ne.symm h, false_or]

end Entries

structure Table (κ β : Type) where
  entries : List (κ × β)
  nodup_keys : (entries.map Prod.fst).Nodup

namespace Table

variable {κ β : Type}

def empty : Table κ β := ⟨[], by simp⟩

instance : Inhabited (Table κ β) := ⟨empty⟩
instance : EmptyCollection (Table κ β) := ⟨empty⟩

def size (t : Table κ β) : Nat := t.entries.length

def keys (t : Table κ β) : List κ := t.entries.map Prod.fst

def toList (t : Table κ β) : List (κ × β) := t.entries

@[simp] theorem length_keys (t : Table κ β) : t.keys.length = t.size := List.length_map ..

variable [DecidableEq κ]

def get? (t : Table κ β) (k : κ) : Option β := Entries.find k t.entries

def contains (t : Table κ β) (k : κ) : Bool := (t.get? k).isSome

def insert (t : Table κ β) (k : κ) (v : β) : Table κ β :=
  ⟨Entries.put k v t.entries, Entries.nodup_keys_put t.nodup_keys⟩

def erase (t : Table κ β) (k : κ) : Table κ β :=
  ⟨Entries.drop k t.entries, Entries.nodup_keys_drop t.nodup_keys⟩

@[simp] theorem get?_empty (k : κ) : (empty : Table κ β).get? k = none := rfl

theorem get?_insert (t : Table κ β) (k x : κ) (v : β) :
    (t.insert k v).get? x = if k = x then some v else t.get? x := Entries.find_put

theorem get?_erase (t : Table κ β) (k x : κ) :
    (t.erase k).get? x = if k = x then none else t.get? x := Entries.find_drop

theorem contains_iff (t : Table κ β) (k : κ) : t.contains k = true ↔ k ∈ t.keys :=
  Entries.find_isSome_iff

end Table

end Interlock
