import Interlock.Toml.Reader

/-!
# Every integer of a document has 64 bits and a sign

`parse_signed`: whatever the base and the layout an integer is written in, and wherever it stands in the
tables, it is in the range of signed words. A scanner yields values of a kind (`Yields`) if it gives no other;
each scanner of the reader does so if those it calls do.
-/

namespace Interlock.Toml

/-- All integers in the value, at any depth, are signed words. -/
inductive Value.Signed : Value → Prop
  | string (text : String) : Signed (.string text)
  | integer {n : Int} : Word.isSigned n = true → Signed (.integer n)
  | float : Signed .float
  | boolean (b : Bool) : Signed (.boolean b)
  | moment : Signed .moment
  | array {elements : List Value} : (∀ v ∈ elements, Signed v) → Signed (.array elements)
  | table {origin : Origin} {entries : List (String × Value)} : (∀ e ∈ entries, Signed e.2) →
      Signed (.table origin entries)
  | tables {elements : List (List (String × Value))} : (∀ entries ∈ elements, ∀ e ∈ entries, Signed e.2) →
      Signed (.tables elements)

namespace Entries

def Signed (entries : Entries) : Prop := ∀ e ∈ entries, e.2.Signed

variable {entries entries' : Entries} {key : String} {v : Value}

theorem signed_nil : Signed [] := nofun

theorem Signed.append (h : Signed entries) (h' : Signed entries') : Signed (entries ++ entries') := by
  intro e he
  rcases List.mem_append.mp he with he | he
  · exact h e he
  · exact h' e he

theorem Signed.find (h : Signed entries) (hv : Entries.find key entries = some v) : v.Signed := by
  induction entries with
  | nil => cases hv
  | cons e rest ih =>
    obtain ⟨k, w⟩ := e
    unfold Entries.find at hv
    split at hv
    · cases hv
      exact h (k, v) List.mem_cons_self
    · exact ih (fun e he => h e (List.mem_cons_of_mem _ he)) hv

theorem Signed.put (h : Signed entries) (hv : v.Signed) : Signed (Entries.put key v entries) := by
  induction entries with
  | nil =>
    intro e he
    rw [Entries.put, List.mem_singleton] at he
    exact he ▸ hv
  | cons e rest ih =>
    obtain ⟨k, w⟩ := e
    have hrest : Signed rest := fun e he => h e (List.mem_cons_of_mem _ he)
    unfold Entries.put
    split
    · intro e he
      rcases List.mem_cons.mp he with rfl | he
      · exact hv
      · exact hrest e he
    · intro e he
      rcases List.mem_cons.mp he with rfl | he
      · exact h _ List.mem_cons_self
      · exact ih hrest e he

/-- The last table of an array of tables, which a key or a header goes on into. -/
theorem signed_last {elements : List Entries} (h : ∀ entries ∈ elements, Signed entries) :
    Signed (elements.getLast?.getD []) := by
  cases hl : elements.getLast? with
  | none => exact signed_nil
  | some last => exact h last (List.mem_of_getLast? hl)

theorem signed_replaceLast {elements : List Entries} (h : ∀ entries ∈ elements, Signed entries)
    (hlast : Signed entries') : (Value.tables (elements.dropLast ++ [entries'])).Signed := by
  apply Value.Signed.tables
  intro entries he
  rcases List.mem_append.mp he with he | he
  · exact h entries (List.dropLast_subset elements he)
  · exact List.mem_singleton.mp he ▸ hlast

theorem Signed.assign {path : List String} (h : Signed entries) (hv : v.Signed)
    (ha : entries.assign path key v = some entries') : Signed entries' := by
  induction path generalizing entries entries' with
  | nil =>
    unfold Entries.assign at ha
    split at ha
    · cases ha
    · cases ha
      apply h.append
      intro e he
      exact List.mem_singleton.mp he ▸ hv
  | cons part path ih =>
    unfold Entries.assign at ha
    split at ha
    · obtain ⟨inner, hinner, hput⟩ := Option.bind_eq_some_iff.mp ha
      cases hput
      exact h.put (.table (ih signed_nil hinner))
    · rename_i inner hfind
      obtain ⟨inner', hinner, hput⟩ := Option.bind_eq_some_iff.mp ha
      cases hput
      cases h.find hfind with
      | table hs => exact h.put (.table (ih hs hinner))
    · rename_i inner hfind
      split at ha
      · cases ha
      · obtain ⟨inner', hinner, hput⟩ := Option.bind_eq_some_iff.mp ha
        cases hput
        cases h.find hfind with
        | table hs => exact h.put (.table (ih hs hinner))
    · rename_i elements hfind
      split at ha
      · cases ha
      · obtain ⟨inner', hinner, hput⟩ := Option.bind_eq_some_iff.mp ha
        cases hput
        cases h.find hfind with
        | tables hs => exact h.put (signed_replaceLast hs (ih (signed_last hs) hinner))
    · cases ha

theorem Signed.changeAt {change : Entries → Option Entries} {path : List String}
    (hchange : ∀ es es', Signed es → change es = some es' → Signed es') (h : Signed entries)
    (hc : changeAt change path entries = some entries') : Signed entries' := by
  induction path generalizing entries entries' with
  | nil => exact hchange _ _ h hc
  | cons part path ih =>
    unfold Entries.changeAt at hc
    split at hc
    · obtain ⟨inner, hinner, hput⟩ := Option.bind_eq_some_iff.mp hc
      cases hput
      exact h.put (.table (ih signed_nil hinner))
    · rename_i elements hfind
      obtain ⟨inner, hinner, hput⟩ := Option.bind_eq_some_iff.mp hc
      cases hput
      cases h.find hfind with
      | tables hs => exact h.put (signed_replaceLast hs (ih (signed_last hs) hinner))
    · cases hc
    · rename_i origin inner _ hfind
      obtain ⟨inner', hinner, hput⟩ := Option.bind_eq_some_iff.mp hc
      cases hput
      cases h.find hfind with
      | table hs => exact h.put (.table (ih hs hinner))
    · cases hc

end Entries

/-! ## Sections -/

def AllSigned (as : List Assignment) : Prop := ∀ a ∈ as, a.value.Signed

section
variable {entries entries' root root' : Entries} {as : List Assignment}

theorem fill_signed (h : entries.Signed) (has : AllSigned as) (hf : fill entries as = some entries') :
    entries'.Signed := by
  induction as generalizing entries with
  | nil =>
    cases hf
    exact h
  | cons a as ih =>
    obtain ⟨entries₁, ha, hf⟩ := Option.bind_eq_some_iff.mp hf
    exact ih (h.assign (has a List.mem_cons_self) ha) (fun b hb => has b (List.mem_cons_of_mem _ hb)) hf

theorem addTo_signed {s : Section} (h : root.Signed) (hs : AllSigned s.assignments)
    (ha : s.addTo root = some root') : root'.Signed := by
  unfold Section.addTo at ha
  split at ha
  · exact fill_signed h hs ha
  · refine h.changeAt (fun es es' hes hchange => ?_) ha
    split at hchange
    · obtain ⟨inner, hinner, hput⟩ := Option.bind_eq_some_iff.mp hchange
      cases hput
      exact hes.put (.table (fill_signed Entries.signed_nil hs hinner))
    · rename_i inner hfind
      obtain ⟨inner', hinner, hput⟩ := Option.bind_eq_some_iff.mp hchange
      cases hput
      cases hes.find hfind with
      | table hin => exact hes.put (.table (fill_signed hin hs hinner))
    · cases hchange
  · refine h.changeAt (fun es es' hes hchange => ?_) ha
    split at hchange
    · obtain ⟨inner, hinner, hput⟩ := Option.bind_eq_some_iff.mp hchange
      cases hput
      refine hes.put (.tables ?_)
      intro inner' hmem
      exact List.mem_singleton.mp hmem ▸ fill_signed Entries.signed_nil hs hinner
    · rename_i elements hfind
      obtain ⟨inner, hinner, hput⟩ := Option.bind_eq_some_iff.mp hchange
      cases hput
      cases hes.find hfind with
      | tables hin =>
        refine hes.put (.tables ?_)
        intro inner' hmem
        rcases List.mem_append.mp hmem with hmem | hmem
        · exact hin inner' hmem
        · exact List.mem_singleton.mp hmem ▸ fill_signed Entries.signed_nil hs hinner
    · cases hchange

theorem build_signed {ss : List Section} (h : ∀ s ∈ ss, AllSigned s.assignments) (hb : build ss = some root) :
    root.Signed := by
  unfold build at hb
  have hroot : Entries.Signed [] := Entries.signed_nil
  generalize ([] : Entries) = start at hb hroot
  induction ss generalizing start with
  | nil =>
    cases hb
    exact hroot
  | cons s ss ih =>
    obtain ⟨root₁, ha, hb⟩ := Option.bind_eq_some_iff.mp hb
    exact ih (fun s' hs' => h s' (List.mem_cons_of_mem _ hs')) root₁ hb (addTo_signed hroot (h s List.mem_cons_self) ha)

end

/-! ## Scanners -/

def Yields {β : Type} (P : β → Prop) (scan : Scan β) : Prop := ∀ cs b rest, scan cs = some (b, rest) → P b

section
variable {cs rest : List Char} {n : Int} {v : Value}

theorem integerInRange_signed {m : Int} (h : integerInRange m cs = some (n, rest)) : Word.isSigned n = true := by
  unfold integerInRange at h
  split at h
  · rename_i hm
    cases h
    exact hm
  · cases h

theorem decimalInteger_signed (h : decimalInteger cs = some (n, rest)) : Word.isSigned n = true := by
  obtain ⟨⟨ds, rest'⟩, -, h⟩ := Option.bind_eq_some_iff.mp h
  exact integerInRange_signed h

theorem radixInteger_signed {base : Nat} (h : radixInteger base cs = some (n, rest)) :
    Word.isSigned n = true := by
  obtain ⟨⟨ds, rest'⟩, -, h⟩ := Option.bind_eq_some_iff.mp h
  exact integerInRange_signed h

theorem integer_signed : Yields (fun n => Word.isSigned n = true) integer := by
  intro cs n rest h
  unfold integer at h
  split at h
  · exact radixInteger_signed h
  · exact radixInteger_signed h
  · exact radixInteger_signed h
  · exact decimalInteger_signed h

theorem quantity_signed : Yields Value.Signed quantity := by
  intro cs v rest h
  unfold quantity at h
  split at h
  · cases h
    exact .moment
  · split at h
    · cases h
      exact .float
    · obtain ⟨⟨n, rest'⟩, hn, heq⟩ := Option.map_eq_some_iff.mp h
      cases heq
      exact .integer (integer_signed _ _ _ hn)

theorem scalar_signed : Yields Value.Signed scalar := by
  intro cs v rest h
  unfold scalar at h
  split at h
  · obtain ⟨⟨text, rest'⟩, -, heq⟩ := Option.map_eq_some_iff.mp h
    cases heq
    exact .string _
  · obtain ⟨⟨text, rest'⟩, -, heq⟩ := Option.map_eq_some_iff.mp h
    cases heq
    exact .string _
  · cases h
    exact .boolean true
  · cases h
    exact .boolean false
  · exact quantity_signed _ _ _ h

end

section
variable {value : Scan Value} (hvalue : Yields Value.Signed value)
include hvalue

theorem assignment_signed : Yields (fun a => a.value.Signed) (assignment value) := by
  intro cs a rest h
  obtain ⟨⟨⟨path, name⟩, rest₁⟩, -, h⟩ := Option.bind_eq_some_iff.mp h
  obtain ⟨rest₂, -, h⟩ := Option.bind_eq_some_iff.mp h
  obtain ⟨⟨v, rest₃⟩, hv, heq⟩ := Option.bind_eq_some_iff.mp h
  cases heq
  exact hvalue _ _ _ hv

theorem elements_signed : Yields (fun vs => ∀ v ∈ vs, v.Signed) (elements value) := by
  intro cs
  fun_induction elements value cs with
  | case1 cs rest _ =>
    intro vs rest' h
    cases h
    exact nofun
  | case3 cs v rest more _ _ _ hv ih =>
    intro vs rest' h
    obtain ⟨⟨vs', rest''⟩, hvs, heq⟩ := Option.map_eq_some_iff.mp h
    cases heq
    intro w hw
    rcases List.mem_cons.mp hw with rfl | hw
    · exact hvalue _ _ _ hv
    · exact ih _ _ hvs w hw
  | case5 cs v rest more _ _ hv =>
    intro vs rest' h
    cases h
    intro w hw
    exact List.mem_singleton.mp hw ▸ hvalue _ _ _ hv
  | _ => exact nofun

theorem moreAssignments_signed : Yields AllSigned (moreAssignments value) := by
  intro cs
  fun_induction moreAssignments value cs with
  | case1 cs rest _ =>
    intro as rest' h
    cases h
    exact nofun
  | case3 cs rest _ a more ha _ ih =>
    intro as rest' h
    obtain ⟨⟨as', rest''⟩, has, heq⟩ := Option.map_eq_some_iff.mp h
    cases heq
    intro b hb
    rcases List.mem_cons.mp hb with rfl | hb
    · exact assignment_signed hvalue _ _ _ ha
    · exact ih _ _ has b hb
  | _ => exact nofun

theorem inlineAssignments_signed : Yields AllSigned (inlineAssignments value) := by
  intro cs as rest h
  unfold inlineAssignments at h
  split at h
  · cases h
    exact nofun
  · obtain ⟨⟨a, rest₁⟩, ha, h⟩ := Option.bind_eq_some_iff.mp h
    obtain ⟨⟨as', rest₂⟩, has, heq⟩ := Option.bind_eq_some_iff.mp h
    cases heq
    intro b hb
    rcases List.mem_cons.mp hb with rfl | hb
    · exact assignment_signed hvalue _ _ _ ha
    · exact moreAssignments_signed hvalue _ _ _ has b hb

end

theorem value_signed (depth : Nat) : Yields Value.Signed (value depth) := by
  induction depth with
  | zero => exact scalar_signed
  | succ depth ih =>
    intro cs v rest h
    unfold value at h
    split at h
    · cases ‹_ = 0›
    · obtain ⟨⟨vs, rest'⟩, hvs, heq⟩ := Option.map_eq_some_iff.mp h
      cases heq
      cases ‹_ + 1 = _ + 1›
      exact .array (elements_signed ih _ _ _ hvs)
    · obtain ⟨⟨as, rest'⟩, has, h⟩ := Option.bind_eq_some_iff.mp h
      obtain ⟨entries, hfill, heq⟩ := Option.bind_eq_some_iff.mp h
      cases heq
      cases ‹_ + 1 = _ + 1›
      exact .table (fill_signed Entries.signed_nil (inlineAssignments_signed ih _ _ _ has) hfill)
    · exact scalar_signed _ _ _ h

/-! ## Documents -/

/-- The assignments on these lines. -/
def assignments (ls : List Line) : List Assignment :=
  ls.flatMap fun
    | .assignment a => [a]
    | _ => []

theorem assignments_cons (l : Line) (ls : List Line) : assignments (l :: ls) = assignments [l] ++ assignments ls := by
  simp [assignments]

theorem line_signed : Yields (fun l => AllSigned (assignments [l])) line := by
  intro cs l rest h
  unfold line at h
  split at h
  · cases h
    exact nofun
  · split at h
    · obtain ⟨⟨hd, rest₁⟩, -, h⟩ := Option.bind_eq_some_iff.mp h
      obtain ⟨rest₂, -, heq⟩ := Option.bind_eq_some_iff.mp h
      cases heq
      exact nofun
    · obtain ⟨⟨a, rest₁⟩, ha, h⟩ := Option.bind_eq_some_iff.mp h
      obtain ⟨rest₂, -, heq⟩ := Option.bind_eq_some_iff.mp h
      cases heq
      intro b hb
      rw [List.mem_singleton.mp hb]
      exact assignment_signed (value_signed _) _ _ _ ha

theorem lines_signed (cs : List Char) : ∀ ls, lines cs = some ls → AllSigned (assignments ls) := by
  fun_induction lines cs with
  | case1 =>
    intro ls h
    cases h
    exact nofun
  | case3 c cs l rest hl _ ih =>
    intro ls h
    obtain ⟨ls', hls, rfl⟩ := Option.map_eq_some_iff.mp h
    intro a ha
    rw [assignments_cons, List.mem_append] at ha
    rcases ha with ha | ha
    · exact line_signed _ _ _ hl a ha
    · exact ih _ hls a ha
  | _ => exact nofun

theorem sections_assignments (h : Header) (ls : List Line) {s : Section} (hs : s ∈ sections h ls) :
    s.assignments ⊆ assignments ls := by
  induction ls generalizing h s with
  | nil =>
    rw [sections, List.mem_singleton] at hs
    rw [hs]
    exact List.nil_subset _
  | cons l ls ih =>
    cases l with
    | blank => exact ih h hs
    | header h' =>
      rcases List.mem_cons.mp hs with rfl | hs
      · exact List.nil_subset _
      · exact ih h' hs
    | assignment a =>
      have hmore : assignments (.assignment a :: ls) = a :: assignments ls := rfl
      rw [hmore]
      unfold sections at hs
      split at hs
      · cases hs
      · rename_i s₀ more heq
        rcases List.mem_cons.mp hs with rfl | hs
        · exact List.cons_subset_cons a (ih h (heq ▸ List.mem_cons_self))
        · exact List.subset_cons_of_subset a (ih h (heq ▸ List.mem_cons_of_mem _ hs))

/-- **Every integer of a document that is read is a signed word.** -/
theorem parse_signed {text : String} {root : Entries} (h : parse text = some root) : root.Signed := by
  obtain ⟨ls, hls, hb⟩ := Option.bind_eq_some_iff.mp h
  refine build_signed (fun s hs a ha => ?_) hb
  exact lines_signed _ _ hls a (sections_assignments _ _ hs ha)

end Interlock.Toml
