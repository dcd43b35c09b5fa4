import Mathlib.Data.List.TakeDrop
import Interlock.Toml.Reader

/-!
# Written numbers

The ways in which whole numbers and floats are written, and what the scanners make of them. A scanner of digits
goes on for as long as it can, so what stands after a number matters by its first character (`Stops`, `NoMark`).
-/

namespace Interlock.Toml

/-- Digits as they may go on after a digit, with single underscores between them; and the digits alone. -/
inductive Grouped (isDigit : Char → Bool) : List Char → List Char → Prop
  | nil : Grouped isDigit [] []
  | digit {c : Char} {text ds : List Char} : isDigit c = true → Grouped isDigit text ds →
      Grouped isDigit (c :: text) (c :: ds)
  | underscore {c : Char} {text ds : List Char} : isDigit c = true → Grouped isDigit text ds →
      Grouped isDigit ('_' :: c :: text) (c :: ds)

/-- A whole number in decimal, without a zero in front. -/
inductive Whole : List Char → List Char → Prop
  | zero : Whole ['0'] ['0']
  | digits {c : Char} {text ds : List Char} : c.isDigit = true → c ≠ '0' → Grouped Char.isDigit text ds →
      Whole (c :: text) (c :: ds)

/-- A sign, if there is one, and whether it makes a number negative. -/
inductive Signs : List Char → Bool → Prop
  | absent : Signs [] false
  | plus : Signs ['+'] false
  | minus : Signs ['-'] true

/-- Digits before this do not go on. -/
def Stops (isDigit : Char → Bool) (rest : List Char) : Prop :=
  ∀ c, rest.head? = some c → isDigit c = false ∧ c ≠ '_'

/-- Digits before this are neither a year nor an hour. -/
def NoMark (rest : List Char) : Prop := ∀ c, rest.head? = some c → c.isDigit = false ∧ c ≠ '-' ∧ c ≠ ':'

variable {text ds sg rest tail : List Char} {c d : Char} {negative : Bool} {n : Nat}

/-! ## Digits -/

theorem ne_of_isDigit (hc : c.isDigit = true) (hd : d.isDigit = false) : c ≠ d := by
  rintro rfl
  rw [hc] at hd
  cases hd

section
variable {isDigit : Char → Bool} (hunderscore : isDigit '_' = false)
include hunderscore

theorem moreDigits_grouped (h : Grouped isDigit text ds) (hrest : Stops isDigit rest) :
    moreDigits isDigit (text ++ rest) = (ds, rest) := by
  induction h with
  | nil =>
    cases rest with
    | nil => rfl
    | cons c rest =>
      obtain ⟨hc, hne⟩ := hrest c rfl
      rw [List.nil_append]
      unfold moreDigits
      split
      · cases ‹_ = []›
      · rename_i h
        exact absurd (List.cons.inj h).1 hne
      · rename_i c' rest' _ h
        obtain ⟨rfl, rfl⟩ := List.cons.inj h
        rw [if_neg (by simp [hc])]
  | @digit c text ds hc h ih =>
    rw [List.cons_append]
    unfold moreDigits
    split
    · cases ‹_ = []›
    · rename_i h
      rw [(List.cons.inj h).1, hunderscore] at hc
      cases hc
    · rename_i c' rest' _ h
      obtain ⟨rfl, rfl⟩ := List.cons.inj h
      rw [if_pos hc, ih]
  | @underscore c text ds hc h ih =>
    rw [List.cons_append, List.cons_append, moreDigits, if_pos hc, ih]

theorem digits_grouped (hc : isDigit c = true) (h : Grouped isDigit text ds) (hrest : Stops isDigit rest) :
    digits isDigit (c :: (text ++ rest)) = some (c :: ds, rest) := by
  unfold digits
  simp only [if_pos hc, moreDigits_grouped hunderscore h hrest]

end

theorem wholeDigits_whole (h : Whole text ds) (hrest : Stops Char.isDigit rest) :
    wholeDigits (text ++ rest) = some (ds, rest) := by
  cases h with
  | zero => rfl
  | @digits c text ds hc hne hmore =>
    rw [List.cons_append]
    unfold wholeDigits
    split
    · rename_i h
      exact absurd (List.cons.inj h).1 hne
    · exact digits_grouped (by decide) hc hmore hrest

theorem Whole.head (h : Whole text ds) : ∃ c text', text = c :: text' ∧ c.isDigit = true := by
  cases h with
  | zero => exact ⟨'0', [], rfl, by decide⟩
  | digits hc _ _ => exact ⟨_, _, rfl, hc⟩

/-- Before an underscore, if there is one, stand only digits. -/
theorem Grouped.run (h : Grouped Char.isDigit text ds) : ∃ ds' more, text = ds' ++ more ∧
    (∀ c ∈ ds', c.isDigit = true) ∧ ∀ c, more.head? = some c → c = '_' := by
  induction h with
  | nil => exact ⟨[], [], rfl, nofun, nofun⟩
  | @digit c text ds hc h ih =>
    obtain ⟨ds', more, rfl, hds, hmore⟩ := ih
    exact ⟨c :: ds', more, rfl, List.forall_mem_cons.mpr ⟨hc, hds⟩, hmore⟩
  | @underscore c text ds hc h ih =>
    exact ⟨[], '_' :: c :: text, rfl, nofun, fun c hc => (Option.some.inj hc).symm⟩

theorem Whole.run (h : Whole text ds) : ∃ ds' more, text = ds' ++ more ∧
    (∀ c ∈ ds', c.isDigit = true) ∧ ∀ c, more.head? = some c → c = '_' := by
  cases h with
  | zero => exact ⟨['0'], [], rfl, List.forall_mem_singleton.mpr rfl, nofun⟩
  | digits hc _ h => exact (Grouped.digit hc h).run

/-! ## Decimals of a natural number -/

theorem isDigit_of_mem (hc : c ∈ Nat.toDigits 10 n) : c.isDigit = true :=
  Nat.isDigit_of_mem_toDigits (by decide) (by decide) hc

theorem toDigits_cons (n : Nat) : ∃ c ds, Nat.toDigits 10 n = c :: ds ∧ c.isDigit = true := by
  cases h : Nat.toDigits 10 n with
  | nil => exact absurd h Nat.toDigits_ne_nil
  | cons c ds => exact ⟨c, ds, rfl, isDigit_of_mem (h ▸ List.mem_cons_self)⟩

/-- Only zero is written with a zero in front. -/
theorem toDigits_zero_cons {ds : List Char} (h : Nat.toDigits 10 n = '0' :: ds) : ds = [] := by
  induction n using Nat.strongRecOn generalizing ds with
  | _ n ih =>
    rw [Nat.toDigits_eq_if (by decide)] at h
    split at h
    · exact (List.cons.inj h).2.symm
    · rename_i hn
      obtain ⟨c, ds', hds', -⟩ := toDigits_cons (n / 10)
      rw [hds', List.cons_append] at h
      obtain ⟨rfl, -⟩ := List.cons.inj h
      have hnil := ih (n / 10) (by omega) hds'
      have hzero : Nat.ofDigitChars 10 (Nat.toDigits 10 (n / 10)) 0 = 0 := by
        rw [hds', hnil]
        rfl
      rw [Nat.ofDigitChars_ten_toDigits] at hzero
      omega

theorem grouped_of_digits (hds : ∀ c ∈ ds, c.isDigit = true) : Grouped Char.isDigit ds ds := by
  induction ds with
  | nil => exact .nil
  | cons c ds ih => exact .digit (hds c List.mem_cons_self) (ih fun d hd => hds d (List.mem_cons_of_mem _ hd))

theorem whole_toDigits (n : Nat) : Whole (Nat.toDigits 10 n) (Nat.toDigits 10 n) := by
  obtain ⟨c, ds, hds, hc⟩ := toDigits_cons n
  have hall : ∀ d ∈ ds, d.isDigit = true := fun d hd => isDigit_of_mem (hds ▸ List.mem_cons_of_mem _ hd)
  rw [hds]
  by_cases hzero : c = '0'
  · subst hzero
    rw [toDigits_zero_cons hds]
    exact .zero
  · exact .digits hc hzero (grouped_of_digits hall)

/-! ## Dates and times -/

/-- The digits end here, so only what is left of them stands before the rest. -/
theorem fixedDigits_stop {cs : List Char} {count k : Nat} (hrest : NoMark rest)
    (h : fixedDigits count (ds ++ rest) = some (k, cs)) : cs = ds.drop count ++ rest := by
  unfold fixedDigits at h
  dsimp only at h
  split at h
  · rename_i hall
    cases h
    apply List.drop_append_of_le_length
    by_contra hlt
    cases rest with
    | nil =>
      have := hall.1
      rw [List.length_take, List.append_nil] at this
      omega
    | cons c rest =>
      have hmem : c ∈ (ds ++ c :: rest).take count := by
        rw [List.take_append, List.mem_append]
        right
        obtain ⟨j, hj⟩ : ∃ j, count - ds.length = j + 1 := ⟨count - ds.length - 1, by omega⟩
        simp [hj]
      have := List.all_eq_true.mp hall.2 _ hmem
      rw [(hrest c rfl).1] at this
      cases this
  · cases h

theorem symbol_stop (hds : ∀ c ∈ ds, c.isDigit = true) (hc : c.isDigit = false)
    (hrest : ∀ d, rest.head? = some d → d ≠ c) : symbol c (ds ++ rest) = none := by
  cases ds with
  | nil =>
    cases rest with
    | nil => rfl
    | cons d rest => exact if_neg (hrest d rfl)
  | cons d ds => exact if_neg (ne_of_isDigit (hds d List.mem_cons_self) hc)

theorem moment_stop (hds : ∀ c ∈ ds, c.isDigit = true) (hrest : NoMark rest) : moment (ds ++ rest) = none := by
  have hdrop (k : Nat) : ∀ c ∈ ds.drop k, c.isDigit = true := fun c hc => hds c (List.mem_of_mem_drop hc)
  have hdate : date (ds ++ rest) = none := by
    unfold date
    cases h : fixedDigits 4 (ds ++ rest) with
    | none => rfl
    | some p =>
      obtain ⟨k, cs⟩ := p
      rw [fixedDigits_stop hrest h]
      simp only [Option.bind_eq_bind, Option.bind_some,
        symbol_stop (hdrop 4) (c := '-') (by decide) fun c hc => (hrest c hc).2.1]
      rfl
  have htime : time (ds ++ rest) = none := by
    unfold time twoDigits
    cases h : fixedDigits 2 (ds ++ rest) with
    | none => rfl
    | some p =>
      obtain ⟨k, cs⟩ := p
      rw [fixedDigits_stop hrest h]
      simp only [Option.bind_eq_bind, Option.bind_some]
      split
      · simp only [Option.bind_some, symbol_stop (hdrop 2) (c := ':') (by decide) fun c hc => (hrest c hc).2.2]
        rfl
      · rfl
  simp [moment, hdate, htime]

theorem moment_whole (h : Whole text ds) (hrest : NoMark rest) : moment (text ++ rest) = none := by
  obtain ⟨ds', more, rfl, hds, hmore⟩ := h.run
  rw [List.append_assoc]
  refine moment_stop hds fun c hc => ?_
  cases more with
  | nil => exact hrest c hc
  | cons d more =>
    obtain rfl := Option.some.inj hc
    rw [hmore d rfl]
    decide

/-- A number with a sign is no date or time. -/
theorem moment_of_not_isDigit (hc : c.isDigit = false) : moment (c :: rest) = none := by
  simp [moment, date, time, twoDigits, fixedDigits, hc]

/-! ## Whole numbers -/

theorem sign_digit (hc : c.isDigit = true) : sign (c :: rest) = (false, c :: rest) := by
  unfold sign
  split
  · rename_i h
    exact absurd (List.cons.inj h).1 (ne_of_isDigit hc (by decide))
  · rename_i h
    exact absurd (List.cons.inj h).1 (ne_of_isDigit hc (by decide))
  · rfl

theorem sign_whole (hsg : Signs sg negative) (h : Whole text ds) :
    sign (sg ++ (text ++ rest)) = (negative, text ++ rest) := by
  cases hsg with
  | absent =>
    obtain ⟨c, text', rfl, hc⟩ := h.head
    exact sign_digit hc
  | plus => rfl
  | minus => rfl

/-- The number that is written with this sign and these digits. -/
def number (negative : Bool) (ds : List Char) : Int :=
  if negative then -(Nat.ofDigitChars 10 ds 0 : Int) else Nat.ofDigitChars 10 ds 0

theorem decimalInteger_whole (hsg : Signs sg negative) (h : Whole text ds) (hrest : Stops Char.isDigit rest) :
    decimalInteger (sg ++ (text ++ rest)) = integerInRange (number negative ds) rest := by
  unfold decimalInteger
  rw [sign_whole hsg h]
  simp only [wholeDigits_whole h hrest, Option.bind_eq_bind, Option.bind_some]
  rfl

/-- What stands after a number is neither a part of it nor of a float, a date or a number in another base. -/
structure Closes (rest : List Char) : Prop where
  stops : ∀ isDigit, isDigit '\n' = false → isDigit '\r' = false → Stops isDigit rest
  noMark : NoMark rest
  fraction : fraction rest = none
  exponent : exponent rest = none
  base : ∀ c ∈ ['x', 'o', 'b'], rest.head? ≠ some c

theorem integer_whole (hsg : Signs sg negative) (h : Whole text ds) (hrest : Stops Char.isDigit rest)
    (hbase : ∀ c ∈ ['x', 'o', 'b'], rest.head? ≠ some c) :
    integer (sg ++ (text ++ rest)) = integerInRange (number negative ds) rest := by
  rw [← decimalInteger_whole hsg h hrest]
  have hne (c : Char) (cs : List Char) (hc : c ∈ ['x', 'o', 'b']) : sg ++ (text ++ rest) ≠ '0' :: c :: cs := by
    intro heq
    cases hsg with
    | absent =>
      cases h with
      | zero =>
        apply hbase c hc
        rw [show rest = c :: cs from (List.cons.inj heq).2]
        rfl
      | digits _ hzero _ => exact hzero (List.cons.inj heq).1
    | plus => exact absurd (List.cons.inj heq).1 (by decide)
    | minus => exact absurd (List.cons.inj heq).1 (by decide)
  unfold integer
  split
  · rename_i heq
    exact absurd heq (hne _ _ (by decide))
  · rename_i heq
    exact absurd heq (hne _ _ (by decide))
  · rename_i heq
    exact absurd heq (hne _ _ (by decide))
  · rfl

theorem moment_signed (hsg : Signs sg negative) (h : Whole text ds) (hrest : NoMark rest) :
    moment (sg ++ (text ++ rest)) = none := by
  cases hsg with
  | absent =>
    rw [List.nil_append]
    exact moment_whole h hrest
  | plus => exact moment_of_not_isDigit (by decide)
  | minus => exact moment_of_not_isDigit (by decide)

theorem specialFloat_whole (hsg : Signs sg negative) (h : Whole text ds) :
    specialFloat (sg ++ (text ++ rest)) = none := by
  obtain ⟨c, text', rfl, hc⟩ := h.head
  unfold specialFloat
  rw [sign_whole hsg h]
  dsimp only
  split
  · rename_i heq
    exact absurd (List.cons.inj heq).1 (ne_of_isDigit hc (by decide))
  · rename_i heq
    exact absurd (List.cons.inj heq).1 (ne_of_isDigit hc (by decide))
  · rfl

/-- A whole number is read as one. -/
theorem quantity_whole (hsg : Signs sg negative) (h : Whole text ds) (hrest : Closes rest) :
    quantity (sg ++ (text ++ rest)) =
      (integerInRange (number negative ds) rest).map fun (n, rest) => (.integer n, rest) := by
  have hstops := hrest.stops Char.isDigit (by decide) (by decide)
  have hdecimal : decimalFloat (sg ++ (text ++ rest)) = none := by
    unfold decimalFloat
    rw [sign_whole hsg h]
    simp only [wholeDigits_whole h hstops, hrest.fraction, hrest.exponent, Option.bind_eq_bind, Option.bind_some,
      Option.getD_none]
    rfl
  unfold quantity float
  rw [moment_signed hsg h hrest.noMark, hdecimal, specialFloat_whole hsg h, integer_whole hsg h hstops hrest.base]
  rfl

/-! ## Whole numbers in another base -/

/-- The letter after the zero, and the base. -/
inductive Radix : Char → Nat → Prop
  | hexadecimal : Radix 'x' 16
  | octal : Radix 'o' 8
  | binary : Radix 'b' 2

def isDigitIn (base : Nat) (c : Char) : Bool := (hexDigit? c).any (· < base)

def numberIn (base : Nat) (ds : List Char) : Nat := ds.foldl (fun n c => base * n + (hexDigit? c).getD 0) 0

theorem quantity_radix {base : Nat} (hx : Radix d base) (hc : isDigitIn base c = true)
    (h : Grouped (isDigitIn base) text ds) (hrest : Closes rest) :
    quantity ('0' :: d :: c :: (text ++ rest)) =
      (integerInRange (numberIn base (c :: ds)) rest).map fun (n, rest) => (.integer n, rest) := by
  have hunderscore : isDigitIn base '_' = false := rfl
  have hstops : Stops (isDigitIn base) rest := hrest.stops _ rfl rfl
  have hinteger : integer ('0' :: d :: c :: (text ++ rest)) = radixInteger base (c :: (text ++ rest)) := by
    cases hx <;> rfl
  have hradix : radixInteger base (c :: (text ++ rest)) = integerInRange (numberIn base (c :: ds)) rest := by
    have hdigits := digits_grouped hunderscore hc h hstops
    unfold isDigitIn at hdigits
    unfold radixInteger
    simp only [hdigits, Option.bind_eq_bind, Option.bind_some]
    rfl
  have hmoment : moment ('0' :: d :: c :: (text ++ rest)) = none := by
    have hzero : ∀ c ∈ ['0'], c.isDigit = true := List.forall_mem_singleton.mpr rfl
    refine moment_stop hzero fun e he => ?_
    cases Option.some.inj he
    cases hx <;> decide
  have hfloat : float ('0' :: d :: c :: (text ++ rest)) = none := by
    cases hx <;> rfl
  unfold quantity
  rw [hmoment, hfloat, hinteger, hradix]

/-! ## Floats -/

inductive Exponent : List Char → Prop
  | mk {mark c : Char} {sg text ds : List Char} {negative : Bool} : mark = 'e' ∨ mark = 'E' → Signs sg negative →
      c.isDigit = true → Grouped Char.isDigit text ds → Exponent (mark :: (sg ++ c :: text))

/-- What makes a float of a whole number before it. -/
inductive Decimals : List Char → Prop
  | fraction {c : Char} {text ds : List Char} : c.isDigit = true → Grouped Char.isDigit text ds →
      Decimals ('.' :: c :: text)
  | exponent {text : List Char} : Exponent text → Decimals text
  | both {c : Char} {text text' ds : List Char} : c.isDigit = true → Grouped Char.isDigit text ds →
      Exponent text' → Decimals ('.' :: c :: (text ++ text'))

theorem Exponent.scan (h : Exponent text) :
    ∃ e, ∀ rest, Stops Char.isDigit rest → exponent (text ++ rest) = some (e, rest) := by
  obtain ⟨hmark, hsg, hc, hmore⟩ := h
  rename_i mark c sg text ds negative
  refine ⟨number negative (c :: ds), fun rest hrest => ?_⟩
  have hsign : sign (sg ++ (c :: (text ++ rest))) = (negative, c :: (text ++ rest)) := by
    cases hsg with
    | absent => exact sign_digit hc
    | plus => rfl
    | minus => rfl
  have hdigits := digits_grouped (by decide) hc hmore hrest
  simp only [List.cons_append, List.append_assoc, exponent, if_pos hmark, hsign, hdigits, Option.bind_eq_bind,
    Option.bind_some]
  rfl

theorem Exponent.head (h : Exponent text) : ∃ mark text', text = mark :: text' ∧ (mark = 'e' ∨ mark = 'E') := by
  obtain ⟨hmark, -, -, -⟩ := h
  exact ⟨_, _, rfl, hmark⟩

theorem Decimals.head (h : Decimals text) :
    ∃ mark text', text = mark :: text' ∧ (mark = '.' ∨ mark = 'e' ∨ mark = 'E') := by
  cases h with
  | fraction _ _ => exact ⟨_, _, rfl, .inl rfl⟩
  | exponent h =>
    obtain ⟨mark, text', rfl, hmark⟩ := h.head
    exact ⟨mark, text', rfl, .inr hmark⟩
  | both _ _ _ => exact ⟨_, _, rfl, .inl rfl⟩

/-- Such a float is read, or refused because it is too large. -/
theorem decimalFloat_written {text' : List Char} (hsg : Signs sg negative) (h : Whole text ds)
    (hd : Decimals text') : ∃ large : Bool, ∀ rest, Closes rest →
      decimalFloat (sg ++ (text ++ (text' ++ rest))) = if large then none else some ((), rest) := by
  cases hd with
  | @fraction c text' part hc hmore =>
    refine ⟨!negative && overflows (Nat.ofDigitChars 10 (ds ++ c :: part) 0) (-(c :: part).length),
      fun rest hrest => ?_⟩
    have hdigits := digits_grouped (by decide) hc hmore (hrest.stops Char.isDigit (by decide) (by decide))
    have hwhole : wholeDigits (text ++ ('.' :: c :: (text' ++ rest))) = some (ds, '.' :: c :: (text' ++ rest)) :=
      wholeDigits_whole h fun _ h => by cases h; decide
    unfold decimalFloat
    rw [sign_whole hsg h]
    simp only [List.cons_append, hwhole, fraction, hdigits, hrest.exponent, Option.bind_eq_bind, Option.bind_some,
      Option.getD_some, List.isEmpty_cons, Bool.false_or]
  | exponent hexp =>
    obtain ⟨e, hscan⟩ := hexp.scan
    obtain ⟨mark, text'', rfl, hmark⟩ := hexp.head
    refine ⟨!negative && overflows (Nat.ofDigitChars 10 (ds ++ []) 0) (-([] : List Char).length + e),
      fun rest hrest => ?_⟩
    have hexponent := hscan rest (hrest.stops Char.isDigit (by decide) (by decide))
    have hwhole : wholeDigits (text ++ (mark :: text'' ++ rest)) = some (ds, mark :: text'' ++ rest) := by
      refine wholeDigits_whole h fun _ h => ?_
      cases h
      rcases hmark with rfl | rfl <;> decide
    have hfraction : fraction (mark :: text'' ++ rest) = none := by
      rcases hmark with rfl | rfl <;> rfl
    unfold decimalFloat
    rw [sign_whole hsg h]
    simp only [hwhole, hfraction, hexponent, Option.bind_eq_bind, Option.bind_some, Option.getD_none]
  | @both c text' text'' part hc hmore hexp =>
    obtain ⟨e, hscan⟩ := hexp.scan
    obtain ⟨mark, text'', rfl, hmark⟩ := hexp.head
    refine ⟨!negative && overflows (Nat.ofDigitChars 10 (ds ++ c :: part) 0) (-(c :: part).length + e),
      fun rest hrest => ?_⟩
    have hexponent := hscan rest (hrest.stops Char.isDigit (by decide) (by decide))
    have hdigits : digits Char.isDigit (c :: (text' ++ (mark :: text'' ++ rest))) =
        some (c :: part, mark :: text'' ++ rest) := by
      refine digits_grouped (by decide) hc hmore fun _ h => ?_
      cases h
      rcases hmark with rfl | rfl <;> decide
    have hwhole : wholeDigits (text ++ ('.' :: c :: (text' ++ (mark :: text'' ++ rest)))) =
        some (ds, '.' :: c :: (text' ++ (mark :: text'' ++ rest))) :=
      wholeDigits_whole h fun _ h => by cases h; decide
    unfold decimalFloat
    rw [sign_whole hsg h]
    simp only [List.cons_append, List.append_assoc] at hwhole hdigits hexponent ⊢
    simp only [hwhole, fraction, hdigits, hexponent, Option.bind_eq_bind, Option.bind_some, Option.getD_some]

/-- A float is read, or it is too large and at most the whole number before its point or exponent is read. -/
theorem quantity_float {text' : List Char} (hsg : Signs sg negative) (h : Whole text ds) (hd : Decimals text') :
    (∀ rest, Closes rest → quantity (sg ++ (text ++ (text' ++ rest))) = some (.float, rest)) ∨
    ∀ rest, Closes rest → ∀ v rest', quantity (sg ++ (text ++ (text' ++ rest))) = some (v, rest') →
      rest' = text' ++ rest := by
  obtain ⟨mark, text'', htext, hmark⟩ := hd.head
  have hmoment (rest : List Char) : moment (sg ++ (text ++ (text' ++ rest))) = none := by
    refine moment_signed hsg h fun c hc => ?_
    rw [htext] at hc
    cases hc
    rcases hmark with rfl | rfl | rfl <;> decide
  obtain ⟨large, hread⟩ := decimalFloat_written hsg h hd
  cases large with
  | false =>
    left
    intro rest hrest
    unfold quantity float
    rw [hmoment, hread rest hrest]
    rfl
  | true =>
    right
    intro rest hrest v rest' hv
    have hinteger : integer (sg ++ (text ++ (text' ++ rest))) =
        integerInRange (number negative ds) (text' ++ rest) := by
      refine integer_whole hsg h (fun c hc => ?_) fun c hc => ?_
      · rw [htext] at hc
        cases hc
        rcases hmark with rfl | rfl | rfl <;> decide
      · rw [htext]
        rintro ⟨⟩
        rcases hmark with rfl | rfl | rfl <;> exact absurd hc (by decide)
    have hquantity : quantity (sg ++ (text ++ (text' ++ rest))) =
        (integerInRange (number negative ds) (text' ++ rest)).map fun (n, rest) => (.integer n, rest) := by
      unfold quantity float
      rw [hmoment, hread rest hrest, specialFloat_whole hsg h, hinteger]
      rfl
    rw [hquantity] at hv
    obtain ⟨⟨n, rest''⟩, hn, heq⟩ := Option.map_eq_some_iff.mp hv
    cases heq
    unfold integerInRange at hn
    split at hn
    · cases hn
      rfl
    · cases hn

/-- Infinity and what is not a number. -/
theorem quantity_special (hsg : Signs sg negative) (hname : text = ['i', 'n', 'f'] ∨ text = ['n', 'a', 'n'])
    (rest : List Char) :
    quantity (sg ++ (text ++ rest)) = some (.float, rest) := by
  have hmoment : moment (sg ++ (text ++ rest)) = none := by
    cases hsg <;> rcases hname with rfl | rfl <;> exact moment_of_not_isDigit (by decide)
  have hfloat : float (sg ++ (text ++ rest)) = some ((), rest) := by
    cases hsg <;> rcases hname with rfl | rfl <;> rfl
  unfold quantity
  rw [hmoment, hfloat]

end Interlock.Toml
