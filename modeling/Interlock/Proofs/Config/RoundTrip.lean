import Interlock.Config
import Interlock.Proofs.Toml.Signed
import Interlock.Proofs.Toml.Written

/-!
# Writing a configuration and reading it back

`round_trip`: a configuration has a document unless a number is too large for it, and reading the document gives
what the validation of the configuration says, and the configuration. Whatever document a configuration was
read from, it has one of its own.
-/

namespace Interlock.Config

open Toml (Value Line lines line sections build)

variable {c : Config}

theorem writable_iff : c.writable = true ↔ c.queueCapacity ≤ maxWritten ∧ c.stackCapacity ≤ maxWritten ∧
    c.cacheCapacity ≤ maxWritten ∧ c.ranks.directory ≤ maxWritten ∧ c.ranks.entry ≤ maxWritten := by
  simp [writable]

theorem isSigned_iff {n : Int} : Word.isSigned n = true ↔ -9223372036854775808 ≤ n ∧ n ≤ maxWritten := by
  unfold Word.isSigned Word.minSigned Word.maxSigned maxWritten
  simp [Word.maxSigned]

theorem isSigned_of_le {n : Nat} (hn : n ≤ maxWritten) : Word.isSigned n = true := by
  rw [isSigned_iff]
  omega

/-! ## Reading the document -/

def headerChars (name : String) (rest : List Char) : List Char := '[' :: (name.toList ++ ']' :: '\n' :: rest)

def fieldChars (name : String) (n : Nat) (rest : List Char) : List Char :=
  name.toList ++ ' ' :: '=' :: ' ' :: (Nat.toDigits 10 n ++ '\n' :: rest)

theorem toList_fieldText (name : String) (n : Nat) (rest : List Char) :
    (fieldText name n).toList ++ rest = fieldChars name n rest := by
  simp [fieldText, fieldChars]

theorem toList_document (c : Config) : c.document.toList =
    headerChars "queue" (fieldChars "initial_capacity" c.queueCapacity
      ('\n' :: headerChars "stack" (fieldChars "initial_capacity" c.stackCapacity
        ('\n' :: headerChars "cache" (fieldChars "initial_capacity" c.cacheCapacity
          ('\n' :: headerChars "ranks" (fieldChars "directory" c.ranks.directory
            (fieldChars "entry" c.ranks.entry [])))))))) := by
  have hqueue (rest : List Char) : "[queue]\n".toList ++ rest = headerChars "queue" rest := rfl
  have hstack (rest : List Char) : "\n[stack]\n".toList ++ rest = '\n' :: headerChars "stack" rest := rfl
  have hcache (rest : List Char) : "\n[cache]\n".toList ++ rest = '\n' :: headerChars "cache" rest := rfl
  have hranks (rest : List Char) : "\n[ranks]\n".toList ++ rest = '\n' :: headerChars "ranks" rest := rfl
  rw [← List.append_nil c.document.toList]
  unfold document
  simp only [String.toList_append, List.append_assoc]
  rw [hqueue, toList_fieldText, hstack, toList_fieldText, hcache, toList_fieldText, hranks, toList_fieldText,
    toList_fieldText]

section
variable {name : String} (hname : Toml.isBare name.toList = true) (rest : List Char)

theorem lines_newline : lines ('\n' :: rest) = (lines rest).map (.blank :: ·) :=
  Toml.lines_cons (Toml.isLine_blank _ _ (.newline rest)) (Nat.lt_succ_self _)

include hname

theorem lines_header : lines (headerChars name rest) = (lines rest).map (.header (.table [] name) :: ·) := by
  have h := Toml.isLine_header hname _ _ (.newline rest)
  have htext : '[' :: (name.toList ++ [']']) ++ '\n' :: rest = headerChars name rest := by simp [headerChars]
  rw [String.ofList_toList, htext] at h
  apply Toml.lines_cons h
  simp only [headerChars, List.length_cons, List.length_append]
  omega

theorem lines_field {n : Nat} (hn : n ≤ maxWritten) :
    lines (fieldChars name n rest) = (lines rest).map (.assignment ⟨[], name, .integer n⟩ :: ·) := by
  have h := Toml.isLine_field hname (isSigned_of_le hn) _ _ (.newline rest)
  have htext : Toml.fieldLine name (Nat.toDigits 10 n) ++ '\n' :: rest = fieldChars name n rest := by
    simp [Toml.fieldLine, fieldChars]
  rw [htext] at h
  apply Toml.lines_cons h
  simp only [fieldChars, List.length_cons, List.length_append]
  omega

end

def writtenLines (c : Config) : List Line :=
  [.header (.table [] "queue"), .assignment ⟨[], "initial_capacity", .integer c.queueCapacity⟩, .blank,
    .header (.table [] "stack"), .assignment ⟨[], "initial_capacity", .integer c.stackCapacity⟩, .blank,
    .header (.table [] "cache"), .assignment ⟨[], "initial_capacity", .integer c.cacheCapacity⟩, .blank,
    .header (.table [] "ranks"), .assignment ⟨[], "directory", .integer c.ranks.directory⟩,
    .assignment ⟨[], "entry", .integer c.ranks.entry⟩]

theorem lines_document (hw : c.writable = true) : lines c.document.toList = some c.writtenLines := by
  obtain ⟨hqueue, hstack, hcache, hdirectory, hentry⟩ := writable_iff.mp hw
  have hend : lines [] = some [] := by rw [lines]
  rw [toList_document, lines_header rfl, lines_field rfl _ hqueue, lines_newline,
    lines_header rfl, lines_field rfl _ hstack, lines_newline,
    lines_header rfl, lines_field rfl _ hcache, lines_newline,
    lines_header rfl, lines_field rfl _ hdirectory, lines_field rfl _ hentry, hend]
  rfl

def tables (c : Config) : Toml.Entries :=
  [("queue", .table .header [("initial_capacity", .integer c.queueCapacity)]),
    ("stack", .table .header [("initial_capacity", .integer c.stackCapacity)]),
    ("cache", .table .header [("initial_capacity", .integer c.cacheCapacity)]),
    ("ranks", .table .header [("directory", .integer c.ranks.directory), ("entry", .integer c.ranks.entry)])]

theorem build_document (c : Config) : build (sections .top c.writtenLines) = some c.tables := rfl

theorem ofEntries?_tables (c : Config) : ofEntries? c.tables = some c := rfl

theorem parse_document (hw : c.writable = true) : (Toml.parse c.document).bind ofEntries? = some c := by
  have hmark : Toml.dropMark c.document.toList = c.document.toList := by
    rw [toList_document]
    rfl
  unfold Toml.parse
  rw [hmark, lines_document hw]
  simp only [Option.bind_eq_bind, Option.bind_some, build_document, ofEntries?_tables]

/-! ## What was read can be written -/

theorem number?_le {default n : Nat} {v : Option Value} (hd : default ≤ maxWritten)
    (hv : ∀ w, v = some w → w.Signed) (h : number? default v = some n) : n ≤ maxWritten := by
  unfold number? at h
  split at h
  · cases h
    exact hd
  · rename_i k
    cases hv _ rfl with
    | integer hk =>
      split at h
      · cases h
        have := (isSigned_iff.mp hk).2
        omega
      · cases h
  · cases h

theorem fields?_signed {v : Option Value} {field : Nat → String → Option Value} (hv : ∀ w, v = some w → w.Signed)
    (h : fields? v = some field) (position : Nat) (name : String) :
    ∀ w, field position name = some w → w.Signed := by
  intro w hw
  unfold fields? at h
  split at h
  · cases h
    cases hw
  · cases h
    cases hw
  · cases h
    cases hv _ rfl with
    | table hs => exact Toml.Entries.Signed.find hs hw
  · cases h
    cases hv _ rfl with
    | array hs => exact hs w (List.mem_of_getElem? hw)
  · cases h

section
variable {root : Toml.Entries} (hroot : root.Signed)
include hroot

theorem section_signed (name : String) : ∀ w, Toml.Entries.find name root = some w → w.Signed :=
  fun _ hw => hroot.find hw

theorem capacity?_le {name : String} {n : Nat} (h : capacity? root name = some n) : n ≤ maxWritten := by
  obtain ⟨field, hfield, h⟩ := Option.bind_eq_some_iff.mp h
  exact number?_le (Nat.zero_le _) (fields?_signed (section_signed hroot name) hfield 0 _) h

theorem ranks?_le {ranks : RegistryRanks} (h : ranks? root = some ranks) :
    ranks.directory ≤ maxWritten ∧ ranks.entry ≤ maxWritten := by
  obtain ⟨field, hfield, h⟩ := Option.bind_eq_some_iff.mp h
  obtain ⟨directory, hdirectory, h⟩ := Option.bind_eq_some_iff.mp h
  obtain ⟨entry, hentry, h⟩ := Option.bind_eq_some_iff.mp h
  cases h
  have hfields := fields?_signed (section_signed hroot "ranks") hfield
  exact ⟨number?_le (by decide) (hfields 0 _) hdirectory, number?_le (by decide) (hfields 1 _) hentry⟩

theorem ofEntries?_writable (h : ofEntries? root = some c) : c.writable = true := by
  obtain ⟨queue, hqueue, h⟩ := Option.bind_eq_some_iff.mp h
  obtain ⟨stack, hstack, h⟩ := Option.bind_eq_some_iff.mp h
  obtain ⟨cache, hcache, h⟩ := Option.bind_eq_some_iff.mp h
  obtain ⟨ranks, hranks, h⟩ := Option.bind_eq_some_iff.mp h
  cases h
  exact writable_iff.mpr
    ⟨capacity?_le hroot hqueue, capacity?_le hroot hstack, capacity?_le hroot hcache, ranks?_le hroot hranks⟩

end

theorem parse_eq {text : String} (h : (Toml.parse text).bind ofEntries? = some c) :
    parse text = c.validate.map fun _ => c := by
  unfold parse
  rw [h]
  dsimp only
  split <;> rename_i hv <;> rw [hv] <;> rfl

theorem parse_writable {text : String} (h : parse text = .ok c) : c.writable = true := by
  unfold parse at h
  split at h
  · cases h
  · rename_i c' hc
    obtain ⟨root, hroot, hof⟩ := Option.bind_eq_some_iff.mp hc
    split at h
    · cases h
      exact ofEntries?_writable (Toml.parse_signed hroot) hof
    · cases h

theorem parse_ok {text : String} (h : parse text = .ok c) : c.validate = .ok () := by
  unfold parse at h
  split at h
  · cases h
  · split at h
    · cases h
      assumption
    · cases h

theorem write?_eq_none : c.write? = none ↔ 9223372036854775807 < c.queueCapacity ∨ 9223372036854775807 < c.stackCapacity ∨
    9223372036854775807 < c.cacheCapacity ∨ 9223372036854775807 < c.ranks.directory ∨ 9223372036854775807 < c.ranks.entry := by
  have hnone : c.write? = none ↔ ¬ c.writable = true := by
    unfold write?
    split <;> simp [*]
  rw [hnone, writable_iff]
  simp only [not_and_or, Nat.not_le]
  rfl

theorem validate_ne_malformed (c : Config) : c.validate ≠ .error .malformed := by
  unfold validate
  split <;> nofun

/-- **A configuration that is written is read back.** -/
theorem round_trip (c : Config) :
    (c.write? = none ↔ 9223372036854775807 < c.queueCapacity ∨ 9223372036854775807 < c.stackCapacity ∨
      9223372036854775807 < c.cacheCapacity ∨ 9223372036854775807 < c.ranks.directory ∨ 9223372036854775807 < c.ranks.entry) ∧
    (∀ text, c.write? = some text →
      parse text ≠ .error .malformed ∧ parse text = c.validate.map fun _ => c) ∧
    ∀ text, parse text = .ok c → ∃ text', c.write? = some text' ∧ parse text' = .ok c := by
  have hread : ∀ text, c.write? = some text → parse text = c.validate.map fun _ => c := by
    intro text htext
    unfold write? at htext
    split at htext
    · rename_i hw
      cases htext
      exact parse_eq (parse_document hw)
    · cases htext
  refine ⟨write?_eq_none, ?_, ?_⟩
  · intro text htext
    rw [hread text htext]
    refine ⟨?_, rfl⟩
    cases hv : c.validate with
    | ok u => nofun
    | error f =>
      rintro ⟨⟩
      exact validate_ne_malformed c hv
  · intro text htext
    have hwrite : c.write? = some c.document := if_pos (parse_writable htext)
    refine ⟨_, hwrite, ?_⟩
    rw [hread _ hwrite, parse_ok htext]
    rfl

def ordered : Config := { queueCapacity := 64, stackCapacity := 32, ranks := { directory := 900, entry := 100 } }

def inverted : Config := { cacheCapacity := 9223372036854775807, ranks := { directory := 100, entry := 900 } }

theorem round_trip_ordered_inverted_too_large :
    (∃ text, parse text = .ok ordered ∧ ∃ text', ordered.write? = some text' ∧ parse text' = .ok ordered) ∧
    (∃ text, inverted.write? = some text ∧ parse text = .error (.invalidConfig (.ranksInverted 100 900))) ∧
    ({ stackCapacity := 9223372036854775808 } : Config).write? = none := by
  obtain ⟨-, hread, hagain⟩ := round_trip ordered
  obtain ⟨-, hread', -⟩ := round_trip inverted
  obtain ⟨hnone, -, -⟩ := round_trip { stackCapacity := 9223372036854775808 }
  have hwrite : ordered.write? = some ordered.document := rfl
  have hwrite' : inverted.write? = some inverted.document := rfl
  have hordered : parse ordered.document = .ok ordered := by
    rw [(hread _ hwrite).2]
    rfl
  refine ⟨⟨_, hordered, hagain _ hordered⟩, ⟨_, hwrite', ?_⟩, hnone.mpr (by decide)⟩
  rw [(hread' _ hwrite').2]
  rfl

end Interlock.Config
