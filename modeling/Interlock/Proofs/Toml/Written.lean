import Interlock.Proofs.Toml.Numerals

/-!
# Reading written lines

What the reader makes of a line that was written: a header with a bare name, and a field with a bare name and a
value. A line is read in the same way whether it is the last or others follow (`IsLine`).
-/

namespace Interlock.Toml

def isBare (name : List Char) : Bool := !name.isEmpty && name.all isBareKey

/-- What stands after the text of a line, and the rest of the document. -/
inductive LineEnd : List Char → List Char → Prop
  | last : LineEnd [] []
  | newline (rest : List Char) : LineEnd ('\n' :: rest) rest
  | returned (rest : List Char) : LineEnd ('\r' :: '\n' :: rest) rest

/-- The text is a line of a document, wherever it stands. -/
def IsLine (text : List Char) (l : Line) : Prop :=
  ∀ rest rest', LineEnd rest rest' → line (text ++ rest) = some (l, rest')

/-- No document has the text as a line. -/
def IsNoLine (text : List Char) : Prop := ∀ rest rest', LineEnd rest rest' → line (text ++ rest) = none

variable {name rest rest' more cs : List Char} {c d : Char} {n : Nat}

theorem isBare_iff : isBare name = true ↔ name ≠ [] ∧ ∀ c ∈ name, isBareKey c = true := by
  simp [isBare]

theorem ne_of_bare (hc : isBareKey c = true) (hd : isBareKey d = false) : c ≠ d := by
  rintro rfl
  rw [hc] at hd
  cases hd

theorem skipBlanks_cons (hc : isBlank c = false) : skipBlanks (c :: rest) = c :: rest := by
  simp [skipBlanks, hc]

theorem isBlank_bare (hc : isBareKey c = true) : isBlank c = false := by
  have hspace := ne_of_bare (d := ' ') hc (by decide)
  have htab := ne_of_bare (d := '\t') hc (by decide)
  simp [isBlank, hspace, htab]

/-! ## Names -/

theorem keyPart_bare (hname : isBare name = true) (hc : isBareKey c = false) :
    keyPart (name ++ c :: rest) = some (String.ofList name, c :: rest) := by
  obtain ⟨hne, hbare⟩ := isBare_iff.mp hname
  have hspan : (name ++ c :: rest).span isBareKey = (name, c :: rest) := by
    rw [List.span_eq_takeWhile_dropWhile, List.takeWhile_append_of_pos hbare, List.dropWhile_append_of_pos hbare]
    simp [hc]
  cases name with
  | nil => exact absurd rfl hne
  | cons b bs =>
    have hb := hbare b List.mem_cons_self
    have hquote : ¬ (b = '"' ∨ b = '\'') := by
      rintro (h | h)
      · exact ne_of_bare hb (by decide) h
      · exact ne_of_bare hb (by decide) h
    rw [List.cons_append] at hspan ⊢
    unfold keyPart
    simp only [if_neg hquote, hspan]
    rfl

theorem skipBlanks_bare (hname : isBare name = true) : skipBlanks (name ++ rest) = name ++ rest := by
  obtain ⟨hne, hbare⟩ := isBare_iff.mp hname
  cases name with
  | nil => exact absurd rfl hne
  | cons b bs => exact skipBlanks_cons (isBlank_bare (hbare b List.mem_cons_self))

theorem key_bare (hname : isBare name = true) (hc : isBareKey c = false) (hmore : skipBlanks (c :: rest) = d :: more)
    (hd : d ≠ '.') : key (name ++ c :: rest) = some (([], String.ofList name), d :: more) := by
  have hparts : keyParts (name ++ c :: rest) = some ([String.ofList name], d :: more) := by
    unfold keyParts
    rw [skipBlanks_bare hname, keyPart_bare hname hc]
    simp only [hmore]
    split
    · rename_i h
      exact absurd (List.cons.inj h).1 hd
    · rfl
  unfold key
  rw [hparts]
  rfl

/-! ## Lines -/

theorem lines_cons {cs rest : List Char} {l : Line} (h : line cs = some (l, rest)) (hlt : rest.length < cs.length) :
    lines cs = (lines rest).map (l :: ·) := by
  cases cs with
  | nil => cases hlt
  | cons b bs =>
    rw [lines]
    simp only [h]
    exact if_pos (Nat.le_of_lt_succ hlt)

theorem LineEnd.eq (h : LineEnd rest rest') : lineEnd? rest = some rest' := by
  cases h <;> rfl

theorem LineEnd.head (h : LineEnd rest rest') (hc : rest.head? = some c) : c = '\n' ∨ c = '\r' := by
  cases h with
  | last => cases hc
  | newline rest => exact .inl (Option.some.inj hc).symm
  | returned rest => exact .inr (Option.some.inj hc).symm

theorem LineEnd.closes (h : LineEnd rest rest') : Closes rest where
  stops isDigit hnewline hreturn c hc := by
    rcases h.head hc with rfl | rfl
    · exact ⟨hnewline, by decide⟩
    · exact ⟨hreturn, by decide⟩
  noMark c hc := by
    rcases h.head hc with rfl | rfl <;> decide
  fraction := by cases h <;> rfl
  exponent := by cases h <;> rfl
  base c hc heq := by
    rcases h.head heq with rfl | rfl <;> exact absurd hc (by decide)

theorem isLine_blank : IsLine [] .blank := by
  intro rest rest' h
  cases h <;> rfl

theorem lineEnd?_bare (hc : isBareKey c = true) : lineEnd? (c :: rest) = none := by
  have hcomment : skipComment (c :: rest) = c :: rest := by
    unfold skipComment
    split
    · rename_i h
      exact absurd (List.cons.inj h).1 (ne_of_bare hc (by decide))
    · rfl
  unfold lineEnd?
  rw [skipBlanks_cons (isBlank_bare hc), hcomment]
  unfold newline?
  split
  · contradiction
  · split
    · rename_i h
      exact absurd (List.cons.inj h).1 (ne_of_bare hc (by decide))
    · rename_i h
      exact absurd (List.cons.inj h).1 (ne_of_bare hc (by decide))
    · rfl

theorem header_bare (hname : isBare name = true) :
    header ('[' :: (name ++ ']' :: rest)) = some (.table [] (String.ofList name), rest) := by
  have hkey : key (name ++ ']' :: rest) = some (([], String.ofList name), ']' :: rest) :=
    key_bare hname (by decide) rfl (by decide)
  obtain ⟨hne, hbare⟩ := isBare_iff.mp hname
  unfold header
  split
  · rename_i cs h
    -- a second bracket would be part of the name
    cases name with
    | nil => exact absurd rfl hne
    | cons b bs =>
      obtain ⟨rfl, -⟩ := List.cons.inj (List.cons.inj h).2
      exact absurd (hbare _ List.mem_cons_self) (by decide)
  · rename_i cs _ h
    obtain rfl := (List.cons.inj h).2
    rw [hkey]
    rfl
  · rename_i h
    exact absurd rfl (h _)

theorem isLine_header (hname : isBare name = true) :
    IsLine ('[' :: (name ++ [']'])) (.header (.table [] (String.ofList name))) := by
  intro rest rest' h
  have htext : '[' :: (name ++ [']']) ++ rest = '[' :: (name ++ ']' :: rest) := by simp
  rw [htext]
  unfold line
  have hend : lineEnd? ('[' :: (name ++ ']' :: rest)) = none := rfl
  have hskip : skipBlanks ('[' :: (name ++ ']' :: rest)) = '[' :: (name ++ ']' :: rest) := rfl
  rw [hend]
  simp only [hskip]
  rw [header_bare hname]
  simp only [Option.bind_eq_bind, Option.bind_some, h.eq]

/-! ## Fields -/

/-- What is written after a name and an equals sign is read as a value. -/
theorem line_assignment (hname : isBare name = true) (hc : isBlank c = false) :
    line (name ++ ' ' :: '=' :: ' ' :: c :: cs) = (value (nestingLimit - 1) (c :: cs)).bind fun (v, rest) =>
      (lineEnd? rest).map fun rest => (.assignment ⟨[], String.ofList name, v⟩, rest) := by
  have hkey : key (name ++ ' ' :: '=' :: ' ' :: c :: cs) =
      some (([], String.ofList name), '=' :: ' ' :: c :: cs) :=
    key_bare hname (by decide) rfl (by decide)
  have hskip : skipBlanks (' ' :: c :: cs) = c :: cs := skipBlanks_cons hc
  have hassignment : assignment (value (nestingLimit - 1)) (name ++ ' ' :: '=' :: ' ' :: c :: cs) =
      (value (nestingLimit - 1) (c :: cs)).map fun (v, rest) => (⟨[], String.ofList name, v⟩, rest) := by
    unfold assignment
    rw [hkey]
    simp only [Option.bind_eq_bind, Option.bind_some, symbol, if_pos, hskip]
    cases value (nestingLimit - 1) (c :: cs) <;> rfl
  obtain ⟨hne, hbare⟩ := isBare_iff.mp hname
  cases name with
  | nil => exact absurd rfl hne
  | cons b bs =>
    have hb := hbare b List.mem_cons_self
    rw [List.cons_append] at hassignment ⊢
    have hbracket : b ≠ '[' := ne_of_bare hb (by decide)
    unfold line
    rw [lineEnd?_bare hb, skipBlanks_cons (isBlank_bare hb)]
    split
    · contradiction
    · split
      · rename_i h
        exact absurd (List.cons.inj h).1 hbracket
      · rw [hassignment]
        cases value (nestingLimit - 1) (c :: cs) with
        | none => rfl
        | some p =>
          obtain ⟨v, rest⟩ := p
          cases hend : lineEnd? rest <;> simp [hend]

/-- The line of a field with this value. -/
def fieldLine (name : String) (text : List Char) : List Char := name.toList ++ ' ' :: '=' :: ' ' :: text

section
variable {name : String} (hname : isBare name.toList = true) (hc : isBlank c = false)
include hname hc

theorem line_fieldLine (rest : List Char) : line (fieldLine name (c :: cs) ++ rest) =
    (value (nestingLimit - 1) (c :: cs ++ rest)).bind fun (v, rest) =>
      (lineEnd? rest).map fun rest => (.assignment ⟨[], name, v⟩, rest) := by
  have htext : fieldLine name (c :: cs) ++ rest = name.toList ++ ' ' :: '=' :: ' ' :: c :: (cs ++ rest) := by
    simp [fieldLine]
  rw [htext, line_assignment hname hc, String.ofList_toList]
  rfl

theorem isLine_of_value {v : Value} (hv : ∀ rest rest', LineEnd rest rest' →
    value (nestingLimit - 1) (c :: cs ++ rest) = some (v, rest)) :
    IsLine (fieldLine name (c :: cs)) (.assignment ⟨[], name, v⟩) := by
  intro rest rest' h
  rw [line_fieldLine hname hc, hv rest rest' h]
  simp [h.eq]

theorem isNoLine_of_value (hv : ∀ rest rest', LineEnd rest rest' → ∀ v more,
    value (nestingLimit - 1) (c :: cs ++ rest) = some (v, more) → lineEnd? more = none) :
    IsNoLine (fieldLine name (c :: cs)) := by
  intro rest rest' h
  rw [line_fieldLine hname hc]
  cases hread : value (nestingLimit - 1) (c :: cs ++ rest) with
  | none => rfl
  | some p =>
    obtain ⟨v, more⟩ := p
    simp [hv rest rest' h v more hread]

end

theorem value_scalar (depth : Nat) (hbracket : c ≠ '[') (hbrace : c ≠ '{') :
    value depth (c :: cs) = scalar (c :: cs) := by
  unfold value
  split
  · rfl
  · rename_i h
    exact absurd (List.cons.inj h).1 hbracket
  · rename_i h
    exact absurd (List.cons.inj h).1 hbrace
  · rfl

/-- A value that does not begin with a quote, a bracket or a letter of true and false is a number or a moment. -/
theorem value_quantity (depth : Nat) (hc : c ∉ ['"', '\'', 't', 'f', '[', '{']) :
    value depth (c :: cs) = quantity (c :: cs) := by
  have hne (d : Char) (hd : d ∈ ['"', '\'', 't', 'f', '[', '{']) : c ≠ d := by
    rintro rfl
    exact hc hd
  rw [value_scalar depth (hne _ (by decide)) (hne _ (by decide))]
  unfold scalar
  split
  · rename_i h
    exact absurd (List.cons.inj h).1 (hne _ (by decide))
  · rename_i h
    exact absurd (List.cons.inj h).1 (hne _ (by decide))
  · rename_i h
    exact absurd (List.cons.inj h).1 (hne _ (by decide))
  · rename_i h
    exact absurd (List.cons.inj h).1 (hne _ (by decide))
  · rfl

theorem value_digit (depth : Nat) (hc : c.isDigit = true) : value depth (c :: cs) = quantity (c :: cs) := by
  refine value_quantity depth fun hmem => ?_
  have hall : (['"', '\'', 't', 'f', '[', '{'].all fun d => !d.isDigit) = true := by decide
  have hnot := List.all_eq_true.mp hall c hmem
  rw [hc] at hnot
  cases hnot

theorem isBlank_digit (hc : c.isDigit = true) : isBlank c = false :=
  isBlank_bare (by simp [isBareKey, Char.isAlphanum, hc])

theorem isLine_field {name : String} (hname : isBare name.toList = true) (hn : Word.isSigned n = true) :
    IsLine (fieldLine name (Nat.toDigits 10 n)) (.assignment ⟨[], name, .integer n⟩) := by
  obtain ⟨c, ds, hds, hc⟩ := toDigits_cons n
  have hnumber : number false (Nat.toDigits 10 n) = n := congrArg Int.ofNat Nat.ofDigitChars_ten_toDigits
  have hwhole := whole_toDigits n
  rw [hds] at hwhole hnumber ⊢
  refine isLine_of_value hname (isBlank_digit hc) fun rest rest' h => ?_
  have hquantity := quantity_whole .absent hwhole h.closes
  rw [List.nil_append, hnumber, integerInRange, if_pos hn] at hquantity
  rw [List.cons_append, value_digit _ hc, ← List.cons_append, hquantity]
  rfl

end Interlock.Toml
