import Interlock.Proofs.Toml.Written

/-!
# Values that are no number from zero up

The texts of a negative or too large whole number, a boolean, a float and a string. A line that gives such a value
to a field is read as an assignment of something other than a number from zero up, or is no line at all.
-/

namespace Interlock.Toml

/-- A value of the wrong kind for a field that holds a number from zero up. -/
inductive Misfit : List Char → Prop
  | negative {text ds : List Char} : Whole text ds → 0 < Nat.ofDigitChars 10 ds 0 → Misfit ('-' :: text)
  | large {sg text ds : List Char} : Signs sg false → Whole text ds →
      9223372036854775807 < Nat.ofDigitChars 10 ds 0 → Misfit (sg ++ text)
  | largeIn {d c : Char} {base : Nat} {text ds : List Char} : Radix d base → isDigitIn base c = true →
      Grouped (isDigitIn base) text ds → 9223372036854775807 < numberIn base (c :: ds) →
      Misfit ('0' :: d :: c :: text)
  | boolean (b : Bool) : Misfit (toString b).toList
  | float {sg text ds text' : List Char} {negative : Bool} : Signs sg negative → Whole text ds → Decimals text' →
      Misfit (sg ++ (text ++ text'))
  | special {sg text : List Char} {negative : Bool} : Signs sg negative →
      text = ['i', 'n', 'f'] ∨ text = ['n', 'a', 'n'] → Misfit (sg ++ text)
  | string {c : Char} {cs s : List Char} : c = '"' ∨ c = '\'' →
      (∀ rest rest', LineEnd rest rest' → string (c :: cs ++ rest) = some (s, rest)) → Misfit (c :: cs)

/-- The line is read, but not as a number from zero up; or it is not read. -/
def Spoils (name : String) (text : List Char) : Prop :=
  (∃ v, (∀ n : Nat, v ≠ .integer n) ∧ IsLine (fieldLine name text) (.assignment ⟨[], name, v⟩)) ∨
    IsNoLine (fieldLine name text)

variable {name : String} {sg text text' ds rest rest' cs : List Char} {c d : Char} {negative : Bool}

/-! ## Numbers -/

/-- The first character of a whole number with or without a sign. -/
def Leads (c : Char) : Prop := c.isDigit = true ∨ c = '+' ∨ c = '-'

theorem Whole.leads (hsg : Signs sg negative) (h : Whole text ds) : ∃ c cs, sg ++ text = c :: cs ∧ Leads c := by
  obtain ⟨c, cs, rfl, hc⟩ := h.head
  cases hsg with
  | absent => exact ⟨c, cs, rfl, .inl hc⟩
  | plus => exact ⟨'+', c :: cs, rfl, .inr (.inl rfl)⟩
  | minus => exact ⟨'-', c :: cs, rfl, .inr (.inr rfl)⟩

theorem Leads.isBlank (hc : Leads c) : isBlank c = false := by
  rcases hc with hc | rfl | rfl
  · exact isBlank_digit hc
  · decide
  · decide

theorem Leads.value (hc : Leads c) (depth : Nat) : value depth (c :: cs) = quantity (c :: cs) := by
  rcases hc with hc | rfl | rfl
  · exact value_digit depth hc
  · exact value_quantity depth (by decide)
  · exact value_quantity depth (by decide)

section
variable (hname : isBare name.toList = true)
include hname

theorem spoils_whole (hsg : Signs sg negative) (h : Whole text ds)
    (hn : ∀ n : Nat, number negative ds = n → 9223372036854775807 < n) : Spoils name (sg ++ text) := by
  have hquantity (rest rest' : List Char) (hend : LineEnd rest rest') := quantity_whole hsg h hend.closes
  obtain ⟨c, cs, htext, hc⟩ := h.leads hsg
  simp only [← List.append_assoc, htext] at hquantity ⊢
  by_cases hsigned : Word.isSigned (number negative ds) = true
  · left
    refine ⟨.integer (number negative ds), fun n heq => ?_, ?_⟩
    · have heq := Value.integer.inj heq
      have hlarge := hn n heq
      rw [heq, Word.isSigned, Bool.and_eq_true, decide_eq_true_eq, decide_eq_true_eq] at hsigned
      have : (n : Int) ≤ 9223372036854775807 := hsigned.2
      omega
    · refine isLine_of_value hname hc.isBlank fun rest rest' hend => ?_
      rw [List.cons_append, hc.value, ← List.cons_append, hquantity rest rest' hend, integerInRange, if_pos hsigned]
      rfl
  · right
    refine isNoLine_of_value hname hc.isBlank fun rest rest' hend v more hv => ?_
    rw [List.cons_append, hc.value, ← List.cons_append, hquantity rest rest' hend, integerInRange,
      if_neg hsigned] at hv
    cases hv

theorem spoils_radix {base : Nat} (hx : Radix d base) (hc : isDigitIn base c = true)
    (h : Grouped (isDigitIn base) text ds) (hn : 9223372036854775807 < numberIn base (c :: ds)) :
    Spoils name ('0' :: d :: c :: text) := by
  right
  refine isNoLine_of_value hname (isBlank_digit (by decide)) fun rest rest' hend v more hv => ?_
  have hsigned : ¬ Word.isSigned (numberIn base (c :: ds)) = true := by
    rw [Word.isSigned, Bool.and_eq_true, decide_eq_true_eq, decide_eq_true_eq]
    rintro ⟨-, hle⟩
    have : (numberIn base (c :: ds) : Int) ≤ 9223372036854775807 := hle
    omega
  simp only [List.cons_append] at hv
  rw [value_digit _ (by decide), quantity_radix hx hc h hend.closes, integerInRange, if_neg hsigned] at hv
  cases hv

theorem spoils_float (hsg : Signs sg negative) (h : Whole text ds) (hd : Decimals text') :
    Spoils name (sg ++ (text ++ text')) := by
  obtain ⟨c, cs, htext, hc⟩ := h.leads hsg
  have hassoc (rest : List Char) : sg ++ (text ++ (text' ++ rest)) = c :: (cs ++ text') ++ rest := by
    simp only [← List.append_assoc, htext, List.cons_append]
  have heq : sg ++ (text ++ text') = c :: (cs ++ text') := by
    simp only [← List.append_assoc, htext, List.cons_append]
  have hread := quantity_float hsg h hd
  simp only [hassoc] at hread
  rw [heq]
  rcases hread with hread | hread
  · left
    refine ⟨.float, nofun, isLine_of_value hname hc.isBlank fun rest rest' hend => ?_⟩
    rw [List.cons_append, hc.value, ← List.cons_append, hread rest hend.closes]
  · right
    refine isNoLine_of_value hname hc.isBlank fun rest rest' hend v more hv => ?_
    rw [List.cons_append, hc.value, ← List.cons_append] at hv
    -- the point or the exponent is left over, and no line ends there
    rw [hread rest hend.closes v more hv]
    obtain ⟨mark, text'', rfl, hmark⟩ := hd.head
    rcases hmark with rfl | rfl | rfl <;> rfl

theorem spoils_special (hsg : Signs sg negative) (hspecial : text = ['i', 'n', 'f'] ∨ text = ['n', 'a', 'n']) :
    Spoils name (sg ++ text) := by
  left
  refine ⟨.float, nofun, ?_⟩
  have hread := quantity_special hsg hspecial
  obtain ⟨c, cs, htext, hc, hother⟩ : ∃ c cs, sg ++ text = c :: cs ∧ isBlank c = false ∧
      c ∉ ['"', '\'', 't', 'f', '[', '{'] := by
    cases hsg <;> rcases hspecial with rfl | rfl <;> exact ⟨_, _, rfl, by decide, by decide⟩
  simp only [← List.append_assoc, htext] at hread ⊢
  refine isLine_of_value hname hc fun rest rest' hend => ?_
  rw [List.cons_append, value_quantity _ hother, ← List.cons_append, hread rest]

/-! ## Booleans and strings -/

theorem spoils_boolean (b : Bool) : Spoils name (toString b).toList := by
  left
  refine ⟨.boolean b, nofun, ?_⟩
  cases b with
  | true => exact isLine_of_value (c := 't') hname (by decide) fun rest rest' hend => rfl
  | false => exact isLine_of_value (c := 'f') hname (by decide) fun rest rest' hend => rfl

theorem spoils_string {s : List Char} (hc : c = '"' ∨ c = '\'')
    (hread : ∀ rest rest', LineEnd rest rest' → string (c :: cs ++ rest) = some (s, rest)) :
    Spoils name (c :: cs) := by
  left
  refine ⟨.string (String.ofList s), nofun, ?_⟩
  refine isLine_of_value hname (by rcases hc with rfl | rfl <;> decide) fun rest rest' hend => ?_
  have hscalar : scalar (c :: (cs ++ rest)) = (string (c :: (cs ++ rest))).map fun p =>
      (.string (String.ofList p.1), p.2) := by
    rcases hc with rfl | rfl <;> rfl
  rw [List.cons_append, value_scalar _ (by rcases hc with rfl | rfl <;> decide)
    (by rcases hc with rfl | rfl <;> decide), hscalar, ← List.cons_append, hread rest rest' hend]
  rfl

theorem spoils_misfit (h : Misfit text) : Spoils name text := by
  cases h with
  | negative h hpos =>
    refine spoils_whole hname .minus h fun n hn => ?_
    simp only [number, if_pos] at hn
    omega
  | large hsg h hlarge =>
    refine spoils_whole hname hsg h fun n hn => ?_
    simp only [number, Bool.false_eq_true, if_false] at hn
    omega
  | largeIn hx hc h hlarge => exact spoils_radix hname hx hc h hlarge
  | boolean b => exact spoils_boolean hname b
  | float hsg h hd => exact spoils_float hname hsg h hd
  | special hsg hspecial => exact spoils_special hname hsg hspecial
  | string hc hread => exact spoils_string hname hc hread

end

end Interlock.Toml
