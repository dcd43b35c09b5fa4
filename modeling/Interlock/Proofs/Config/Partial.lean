import Mathlib.Data.List.Forall2
import Mathlib.Data.List.Pairwise
import Interlock.Proofs.Calls
import Interlock.Proofs.Config.RoundTrip
import Interlock.Proofs.Toml.Misfits
import Interlock.Proofs.Toml.Sections

/-!
# Partial configuration documents

A document is some of the four sections, each with some of its fields, in any order and among unknown keys and
unknown sections (`Doc`). What such a document makes known of a field (`Gives`) does not depend on the order or on
what is unknown, and it decides what the document is read as (`partial_documents`).
-/

namespace Interlock.Config

open Toml (Value Line IsLine IsNoLine Misfit Block)

/-! ## Documents -/

def sectionNames : List String := ["queue", "stack", "cache", "ranks"]

def fieldNames : String → List String
  | "queue" => ["initial_capacity"]
  | "stack" => ["initial_capacity"]
  | "cache" => ["initial_capacity"]
  | "ranks" => ["directory", "entry"]
  | _ => []

/-- A line under the header of a known section. -/
inductive Entry where
  | field (name : String) (n : Nat)
  /-- A field with a value that it cannot have. -/
  | misfit (name : String) (text : List Char)
  /-- An unknown key. -/
  | other (text : List Char) (name : String) (v : Value)
  | blank (text : List Char)

namespace Entry

def text : Entry → List Char
  | field name n => Toml.fieldLine name (Nat.toDigits 10 n)
  | misfit name text => Toml.fieldLine name text
  | other text _ _ => text
  | blank text => text

def key? : Entry → Option String
  | field name _ => some name
  | misfit name _ => some name
  | other _ name _ => some name
  | blank _ => none

/-- The line may stand in the section. -/
inductive Valid (table : String) : Entry → Prop
  | field {name : String} {n : Nat} : name ∈ fieldNames table → n ≤ 9223372036854775807 → Valid table (.field name n)
  | misfit {name : String} {text : List Char} : name ∈ fieldNames table → Misfit text →
      Valid table (.misfit name text)
  | other {text : List Char} {name : String} {v : Value} : name ∉ fieldNames table →
      IsLine text (.assignment ⟨[], name, v⟩) → Valid table (.other text name v)
  | blank {text : List Char} : IsLine text .blank → Valid table (.blank text)

/-- What the line is read as. -/
inductive Reads : Entry → Line → Prop
  | field (name : String) (n : Nat) : Reads (.field name n) (.assignment ⟨[], name, .integer n⟩)
  | misfit (name : String) (text : List Char) {v : Value} : (∀ n : Nat, v ≠ .integer n) →
      Reads (.misfit name text) (.assignment ⟨[], name, v⟩)
  | other (text : List Char) (name : String) (v : Value) : Reads (.other text name v) (.assignment ⟨[], name, v⟩)
  | blank (text : List Char) : Reads (.blank text) .blank

end Entry

inductive Part where
  | known (name : String) (entries : List Entry)
  | unknown (head : List Char) (header : Toml.Header) (body : List (List Char × Line))

namespace Part

def texts : Part → List (List Char)
  | known name entries => ('[' :: (name.toList ++ [']'])) :: entries.map Entry.text
  | unknown head _ body => head :: body.map Prod.fst

def name? : Part → Option String
  | known name _ => some name
  | unknown _ _ _ => none

/-- The keys of a known section are all different. The header of an unknown one begins with another name, so that
headers below a known section, such as `[queue.sub]`, are left out. -/
inductive Valid : Part → Prop
  | known {name : String} {entries : List Entry} : name ∈ sectionNames → (∀ e ∈ entries, e.Valid name) →
      (entries.filterMap Entry.key?).Nodup → Valid (.known name entries)
  | unknown {head : List Char} {header : Toml.Header} {body : List (List Char × Line)} {root : String} :
      IsLine head (.header header) → header.root? = some root → root ∉ sectionNames →
      (∀ l ∈ body, IsLine l.1 l.2 ∧ l.2.isHeader = false) → Valid (.unknown head header body)

/-- What the section is read as, if its lines are read as `read` says. -/
def block (read : Entry → Line) : Part → Block
  | known name entries => (.table [] name, entries.map read)
  | unknown _ header body => (header, body.map Prod.snd)

end Part

/-- Blank lines and comments, and the sections. -/
structure Doc where
  preamble : List (List Char) := []
  parts : List Part

namespace Doc

def texts (d : Doc) : List (List Char) := d.preamble ++ d.parts.flatMap Part.texts

/-- The text is the document, with line ends of either kind. -/
def Spells (d : Doc) (text : String) : Prop := Toml.Written d.texts text.toList

/-- The unknown sections alone. -/
def unknown (d : Doc) : Doc := ⟨[], d.parts.filter fun p => p.name?.isNone⟩

structure Valid (d : Doc) : Prop where
  preamble : ∀ text ∈ d.preamble, IsLine text .blank
  parts : ∀ p ∈ d.parts, p.Valid
  names : (d.parts.filterMap Part.name?).Nodup
  unknown : ∃ text, d.unknown.Spells text ∧ (Toml.parse text).isSome

/-- All fields have numbers from zero up. -/
def Fits (d : Doc) : Prop := ∀ table entries, .known table entries ∈ d.parts → ∀ name text, .misfit name text ∉ entries

def Writes (d : Doc) (table name : String) (n : Nat) : Prop :=
  ∃ entries, .known table entries ∈ d.parts ∧ .field name n ∈ entries

/-- The number that is written, or the default. -/
def Gives (d : Doc) (table name : String) (default n : Nat) : Prop :=
  d.Writes table name n ∨ (∀ m, ¬ d.Writes table name m) ∧ n = default

/-- The configuration has every written number, and the default for every other field. -/
structure Decodes (d : Doc) (c : Config) : Prop where
  queue : d.Gives "queue" "initial_capacity" 0 c.queueCapacity
  stack : d.Gives "stack" "initial_capacity" 0 c.stackCapacity
  cache : d.Gives "cache" "initial_capacity" 0 c.cacheCapacity
  directory : d.Gives "ranks" "directory" 10000 c.ranks.directory
  entry : d.Gives "ranks" "entry" 5000 c.ranks.entry

end Doc

/-! ## Reading the lines -/

theorem mem_fieldNames {table name : String} (h : name ∈ fieldNames table) :
    name ∈ ["initial_capacity", "directory", "entry"] := by
  unfold fieldNames at h
  split at h <;> simp_all

theorem isBare_field {table name : String} (h : name ∈ fieldNames table) : Toml.isBare name.toList = true := by
  have hall : ∀ name ∈ ["initial_capacity", "directory", "entry"], Toml.isBare name.toList = true := by decide
  exact hall name (mem_fieldNames h)

theorem isBare_section {name : String} (h : name ∈ sectionNames) : Toml.isBare name.toList = true := by
  have hall : ∀ name ∈ sectionNames, Toml.isBare name.toList = true := by decide
  exact hall name h

section
variable {table : String} {e : Entry}

theorem Entry.Valid.reads (h : e.Valid table) : (∃ l, e.Reads l ∧ IsLine e.text l) ∨ IsNoLine e.text := by
  cases h with
  | field hname hn =>
    exact .inl ⟨_, .field _ _, Toml.isLine_field (isBare_field hname) (isSigned_of_le hn)⟩
  | misfit hname hmisfit =>
    rcases Toml.spoils_misfit (isBare_field hname) hmisfit with ⟨v, hv, hline⟩ | hno
    · exact .inl ⟨_, .misfit _ _ hv, hline⟩
    · exact .inr hno
  | other hname hline => exact .inl ⟨_, .other _ _ _, hline⟩
  | blank hline => exact .inl ⟨_, .blank _, hline⟩

/-- Only a field with a value that it cannot have is refused. -/
theorem Entry.Valid.reads_of_fits (h : e.Valid table) (hfits : ∀ name text, e ≠ .misfit name text) :
    ∃ l, e.Reads l ∧ IsLine e.text l := by
  cases h with
  | field hname hn => exact ⟨_, .field _ _, Toml.isLine_field (isBare_field hname) (isSigned_of_le hn)⟩
  | misfit hname hmisfit => exact absurd rfl (hfits _ _)
  | other hname hline => exact ⟨_, .other _ _ _, hline⟩
  | blank hline => exact ⟨_, .blank _, hline⟩

theorem Entry.Valid.no_mark (h : e.Valid table) : e.text.head? ≠ some '\ufeff' := by
  have hfield (name : String) (text : List Char) (hname : name ∈ fieldNames table) :
      (Toml.fieldLine name text).head? ≠ some '\ufeff' := by
    have hmem := mem_fieldNames hname
    simp only [List.mem_cons, List.not_mem_nil, or_false] at hmem
    rcases hmem with rfl | rfl | rfl <;> simp [Toml.fieldLine]
  cases h with
  | field hname hn => exact hfield _ _ hname
  | misfit hname hmisfit => exact hfield _ _ hname
  | other hname hline => exact hline.no_mark
  | blank hline => exact hline.no_mark

end

/-- A way to read the lines that are not refused. -/
theorem exists_read : ∃ read : Entry → Line, ∀ table e, e.Valid table → ¬ IsNoLine e.text →
    e.Reads (read e) ∧ IsLine e.text (read e) := by
  have hread (e : Entry) : ∃ l, ∀ table, e.Valid table → ¬ IsNoLine e.text → e.Reads l ∧ IsLine e.text l := by
    by_cases h : ∃ l, e.Reads l ∧ IsLine e.text l
    · obtain ⟨l, hl⟩ := h
      exact ⟨l, fun _ _ _ => hl⟩
    · refine ⟨.blank, fun table he hline => ?_⟩
      rcases he.reads with hl | hno
      · exact absurd hl h
      · exact absurd hno hline
  choose read hread using hread
  exact ⟨read, fun table e => hread e table⟩

/-- The lines of the known sections are read like this. -/
def Doc.ReadBy (d : Doc) (read : Entry → Line) : Prop :=
  ∀ table entries, .known table entries ∈ d.parts → ∀ e ∈ entries, e.Reads (read e) ∧ IsLine e.text (read e)

section
variable {d : Doc} {read : Entry → Line} {text : String}

def Doc.lines (d : Doc) (read : Entry → Line) : List Line :=
  d.preamble.map (fun _ => .blank) ++ (d.parts.map (Part.block read)).flatMap Block.lines

def Doc.sections (d : Doc) (read : Entry → Line) : List Toml.Section :=
  (d.parts.map (Part.block read)).map Block.section

theorem isLines_map {ι : Type} {xs : List ι} {text : ι → List Char} {line : ι → Line}
    (h : ∀ x ∈ xs, IsLine (text x) (line x)) : List.Forall₂ IsLine (xs.map text) (xs.map line) := by
  rw [List.forall₂_map_left_iff, List.forall₂_map_right_iff, List.forall₂_same]
  exact h

theorem Part.Valid.isLine {p : Part} (h : p.Valid)
    (hread : ∀ table entries, p = .known table entries → ∀ e ∈ entries, IsLine e.text (read e)) :
    List.Forall₂ IsLine p.texts (p.block read).lines := by
  cases h with
  | @known name entries hname hentries hkeys =>
    have hheader := Toml.isLine_header (isBare_section hname)
    rw [String.ofList_toList] at hheader
    exact .cons hheader (isLines_map (hread name entries rfl))
  | unknown hheader hroot hnot hbody =>
    exact .cons hheader (isLines_map fun l hl => (hbody l hl).1)

theorem Part.Valid.headless {p : Part} (h : p.Valid)
    (hread : ∀ table entries, p = .known table entries → ∀ e ∈ entries, e.Reads (read e)) :
    ∀ l ∈ (p.block read).2, l.isHeader = false := by
  intro l hl
  cases h with
  | @known name entries hname hentries hkeys =>
    obtain ⟨e, he, rfl⟩ := List.mem_map.mp hl
    have hreads := hread name entries rfl e he
    generalize read e = l at hreads
    cases hreads <;> rfl
  | unknown hheader hroot hnot hbody =>
    obtain ⟨x, hx, rfl⟩ := List.mem_map.mp hl
    exact (hbody x hx).2

theorem Part.Valid.no_mark {p : Part} (h : p.Valid) : ∀ text ∈ p.texts, text.head? ≠ some '\ufeff' := by
  intro text htext
  cases h with
  | known hname hentries hkeys =>
    rcases List.mem_cons.mp htext with rfl | hmem
    · simp
    · obtain ⟨e, he, rfl⟩ := List.mem_map.mp hmem
      exact (hentries e he).no_mark
  | unknown hheader hroot hnot hbody =>
    rcases List.mem_cons.mp htext with rfl | hmem
    · exact hheader.no_mark
    · obtain ⟨l, hl, rfl⟩ := List.mem_map.mp hmem
      exact (hbody l hl).1.no_mark

variable (hpreamble : ∀ text ∈ d.preamble, IsLine text .blank) (hparts : ∀ p ∈ d.parts, p.Valid)
include hpreamble hparts

theorem Doc.dropMark (h : d.Spells text) : Toml.dropMark text.toList = text.toList := by
  refine h.dropMark fun text htext => ?_
  rcases List.mem_append.mp htext with hmem | hmem
  · exact (hpreamble text hmem).no_mark
  · obtain ⟨p, hp, hmem⟩ := List.mem_flatMap.mp hmem
    exact (hparts p hp).no_mark text hmem

/-- The sections of the document, which its lines make one by one. -/
theorem Doc.parse_eq (hread : d.ReadBy read) (h : d.Spells text) :
    Toml.parse text = Toml.addAll [] (d.sections read) := by
  have hlines : List.Forall₂ IsLine d.texts (d.lines read) := by
    refine List.rel_append ?_ ?_
    · rw [List.forall₂_map_right_iff, List.forall₂_same]
      exact hpreamble
    · have hpart (p : Part) (hp : p ∈ d.parts) : List.Forall₂ IsLine p.texts (p.block read).lines :=
        (hparts p hp).isLine fun table entries heq e he => (hread table entries (heq ▸ hp) e he).2
      revert hpart
      generalize d.parts = parts
      intro hpart
      induction parts with
      | nil => exact .nil
      | cons p parts ih =>
        exact List.rel_append (hpart p List.mem_cons_self) (ih fun p hp => hpart p (List.mem_cons_of_mem _ hp))
  have hsections : Toml.sections .top (d.lines read) = ⟨.top, []⟩ :: d.sections read := by
    have hblank : (d.preamble.map fun _ => Line.blank).filterMap Line.assignment? = [] := by
      simp [Toml.Line.assignment?]
    rw [Doc.lines, Toml.sections_blocks, hblank]
    · rfl
    · intro l hl
      obtain ⟨-, -, rfl⟩ := List.mem_map.mp hl
      rfl
    · intro b hb
      obtain ⟨p, hp, rfl⟩ := List.mem_map.mp hb
      exact (hparts p hp).headless fun table entries heq e he => (hread table entries (heq ▸ hp) e he).1
  obtain ⟨ls, hls, hsame⟩ := h.read hlines
  rw [Toml.parse, Doc.dropMark hpreamble hparts h, hls]
  show Toml.build (Toml.sections .top ls) = _
  rw [hsame, hsections]
  rfl

end

/-! ## The sections -/

section
variable {read : Entry → Line} {entries : List Entry} {e : Entry} {l : Line}

/-- What the lines of a section say of its fields. -/
def assignments (read : Entry → Line) (entries : List Entry) : List Toml.Assignment :=
  (entries.map read).filterMap Line.assignment?

theorem Entry.Reads.key (h : e.Reads l) : l.assignment?.map Toml.Assignment.key = e.key? := by
  cases h <;> rfl

theorem Entry.Reads.path (h : e.Reads l) {a : Toml.Assignment} (ha : l.assignment? = some a) : a.path = [] := by
  cases h <;> cases ha <;> rfl

theorem mem_assignments {a : Toml.Assignment} :
    a ∈ assignments read entries ↔ ∃ e ∈ entries, (read e).assignment? = some a := by
  simp [assignments]

variable (hreads : ∀ e ∈ entries, e.Reads (read e))
include hreads

theorem keys_assignments : (assignments read entries).map Toml.Assignment.key = entries.filterMap Entry.key? := by
  rw [assignments, List.filterMap_map, List.map_filterMap]
  exact List.filterMap_congr fun e he => (hreads e he).key

theorem plain_assignments (hkeys : (entries.filterMap Entry.key?).Nodup) :
    Toml.Plain (assignments read entries) := by
  refine ⟨fun a ha => ?_, (keys_assignments hreads).symm ▸ hkeys⟩
  obtain ⟨e, he, ha⟩ := mem_assignments.mp ha
  exact (hreads e he).path ha

theorem find_assignments (hkeys : (entries.filterMap Entry.key?).Nodup) {name : String} {v : Value} :
    Toml.Entries.find name (Toml.entriesOf (assignments read entries)) = some v ↔
      ∃ e ∈ entries, read e = .assignment ⟨[], name, v⟩ := by
  have hnodup : ((Toml.entriesOf (assignments read entries)).map Prod.fst).Nodup := by
    rw [Toml.entriesOf, List.map_map]
    exact (keys_assignments hreads).symm ▸ hkeys
  rw [Toml.Entries.find_eq]
  constructor
  · intro h
    obtain ⟨a, ha, heq⟩ := List.mem_map.mp (Interlock.Entries.mem_of_find h)
    obtain ⟨e, he, hread⟩ := mem_assignments.mp ha
    have hpath := (hreads e he).path hread
    refine ⟨e, he, ?_⟩
    obtain ⟨path, key, value⟩ := a
    cases heq
    cases hpath
    cases hl : read e with
    | assignment a =>
      rw [hl] at hread
      cases hread
      rfl
    | _ =>
      rw [hl] at hread
      cases hread
  · rintro ⟨e, he, hread⟩
    apply Interlock.Entries.find_of_mem hnodup
    have hmem : ⟨[], name, v⟩ ∈ assignments read entries := mem_assignments.mpr ⟨e, he, by rw [hread]; rfl⟩
    exact List.mem_map_of_mem (f := fun a : Toml.Assignment => (a.key, a.value)) hmem

end

namespace Doc

variable {d : Doc} {read : Entry → Line}

section
variable (hparts : ∀ p ∈ d.parts, p.Valid) (hread : d.ReadBy read)
include hparts hread

theorem apart : ∀ s ∈ d.sections read, Toml.Apart sectionNames s := by
  intro s hs
  obtain ⟨b, hb, rfl⟩ := List.mem_map.mp hs
  obtain ⟨p, hp, rfl⟩ := List.mem_map.mp hb
  cases hparts p hp with
  | known hname hentries hkeys => exact .plain hname (plain_assignments (fun e he => (hread _ _ hp e he).1) hkeys)
  | unknown hheader hroot hnot hbody => exact .other hroot hnot

omit hread in
theorem header_of_valid {p : Part} (hp : p ∈ d.parts) {name : String} (hname : name ∈ sectionNames)
    (h : (p.block read).section.header = .table [] name) : p.name? = some name := by
  cases hparts p hp with
  | known hname' hentries hkeys =>
    cases h
    rfl
  | @unknown head header body root hheader hroot hnot hbody =>
    have h : header = .table [] name := h
    rw [h] at hroot
    cases hroot
    exact absurd hname hnot

omit hread in
theorem distinct (hnames : (d.parts.filterMap Part.name?).Nodup) :
    Toml.Distinct sectionNames (d.sections read) := by
  rw [Toml.Distinct, sections, List.map_map, List.pairwise_map]
  refine List.Pairwise.imp_of_mem ?_ (List.pairwise_filterMap.mp hnames)
  intro p p' hp hp' hne name hname h h'
  exact hne name (header_of_valid hparts hp hname h) name (header_of_valid hparts hp' hname h') rfl

omit hread in
theorem others : (d.sections read).filter (Toml.Section.isOther sectionNames) = d.unknown.sections read := by
  rw [sections, sections, List.map_map, List.map_map, List.filter_map, unknown]
  refine congrArg _ (List.filter_congr fun p hp => ?_)
  cases hparts p hp with
  | known hname hentries hkeys =>
    simp [Toml.Section.isOther, Toml.Header.root?, Part.block, Block.section, Part.name?, hname]
  | unknown hheader hroot hnot hbody =>
    simp [Toml.Section.isOther, Part.block, Block.section, Part.name?, hroot, hnot]

end

/-- A known section is read as a table, or is not there. -/
theorem find_section {root : Toml.Entries} {table : String} (hd : d.Valid) (hread : d.ReadBy read)
    (h : Toml.addAll [] (d.sections read) = some root) (htable : table ∈ sectionNames) :
    (∃ entries, .known table entries ∈ d.parts ∧
      Toml.Entries.find table root = some (.table .header (Toml.entriesOf (assignments read entries)))) ∨
    (∀ entries, .known table entries ∉ d.parts) ∧ Toml.Entries.find table root = none := by
  have hdistinct : Toml.Distinct sectionNames (d.sections read) := distinct hd.parts hd.names
  by_cases hsome : ∃ entries, .known table entries ∈ d.parts
  · obtain ⟨entries, hmem⟩ := hsome
    refine .inl ⟨entries, hmem, ?_⟩
    refine Toml.addAll_find (apart hd.parts hread) hdistinct htable rfl ?_ h
    exact List.mem_map_of_mem (f := Block.section) (List.mem_map_of_mem (f := Part.block read) hmem)
  · refine .inr ⟨not_exists.mp hsome, ?_⟩
    refine Toml.addAll_keeps (apart hd.parts hread) htable (fun s hs heq => hsome ?_) h
    obtain ⟨b, hb, rfl⟩ := List.mem_map.mp hs
    obtain ⟨p, hp, rfl⟩ := List.mem_map.mp hb
    have hname := header_of_valid hd.parts hp htable heq
    cases p with
    | known name entries =>
      cases hname
      exact ⟨entries, hp⟩
    | unknown head header body => cases hname

/-! ## The fields -/

/-- A field of the document is written so that it cannot be read as a number from zero up. -/
def Misses (d : Doc) (table name : String) : Prop :=
  ∃ entries text, .known table entries ∈ d.parts ∧ .misfit name text ∈ entries

theorem entries_unique (hd : d.Valid) {table : String} {entries entries' : List Entry}
    (h : .known table entries ∈ d.parts) (h' : .known table entries' ∈ d.parts) : entries = entries' := by
  by_contra hne
  have hpairwise := List.pairwise_filterMap.mp hd.names
  have : Std.Symm fun p p' : Part => ∀ n, p.name? = some n → ∀ n', p'.name? = some n' → n ≠ n' :=
    ⟨fun p p' h n hn n' hn' heq => h n' hn' n hn heq.symm⟩
  exact hpairwise.forall h h' (fun heq => hne (Part.known.inj heq).2) table rfl table rfl rfl

/-- What is read at the fields of a section. -/
theorem fields_eq (table : String) {root : Toml.Entries} (hd : d.Valid) (hread : d.ReadBy read)
    (h : Toml.addAll [] (d.sections read) = some root) (htable : table ∈ sectionNames) :
    ∃ field, fields? (Toml.Entries.find table root) = some field ∧
      ∀ position, ∀ name ∈ fieldNames table,
        (∀ n, d.Writes table name n → field position name = some (.integer n)) ∧
        (d.Misses table name → ∃ v, (∀ n : Nat, v ≠ .integer n) ∧ field position name = some v) ∧
        ((∀ n, ¬ d.Writes table name n) → ¬ d.Misses table name → field position name = none) := by
  rcases find_section hd hread h htable with ⟨entries, hmem, hfind⟩ | ⟨hnone, hfind⟩
  · refine ⟨_, by rw [hfind]; rfl, fun position name hname => ?_⟩
    have hreads : ∀ e ∈ entries, e.Reads (read e) := fun e he => (hread table entries hmem e he).1
    cases hd.parts _ hmem with
    | known _ hentries hkeys =>
      have hvalue {v : Value} : Toml.Entries.find name (Toml.entriesOf (assignments read entries)) = some v ↔
          ∃ e ∈ entries, read e = .assignment ⟨[], name, v⟩ := find_assignments hreads hkeys
      refine ⟨?_, ?_, fun hwrites hmisses => ?_⟩
      · rintro n ⟨entries', hmem', hfield⟩
        obtain rfl := entries_unique hd hmem hmem'
        refine hvalue.mpr ⟨_, hfield, ?_⟩
        have := hreads _ hfield
        generalize read (.field name n) = l at this ⊢
        cases this
        rfl
      · rintro ⟨entries', text, hmem', hmisfit⟩
        obtain rfl := entries_unique hd hmem hmem'
        have := hreads _ hmisfit
        generalize hl : read (.misfit name text) = l at this
        cases this with
        | @misfit _ _ v hv => exact ⟨v, hv, hvalue.mpr ⟨_, hmisfit, hl⟩⟩
      · cases hv : Toml.Entries.find name (Toml.entriesOf (assignments read entries)) with
        | none => rfl
        | some v =>
          exfalso
          obtain ⟨e, he, hl⟩ := hvalue.mp hv
          have := hreads e he
          rw [hl] at this
          cases this with
          | field name n => exact hwrites n ⟨entries, hmem, he⟩
          | misfit name text _ => exact hmisses ⟨entries, text, hmem, he⟩
          | other text name v =>
            cases hentries _ he with
            | other hnot _ => exact hnot hname
  · refine ⟨_, by rw [hfind]; rfl, fun position name hname => ⟨?_, ?_, fun _ _ => rfl⟩⟩
    · rintro n ⟨entries, hmem, -⟩
      exact absurd hmem (hnone entries)
    · rintro ⟨entries, text, hmem, -⟩
      exact absurd hmem (hnone entries)

/-! ## The numbers -/

theorem writes_le (hd : d.Valid) {table name : String} {n : Nat} (h : d.Writes table name n) : n ≤ maxWritten := by
  obtain ⟨entries, hmem, hfield⟩ := h
  cases hd.parts _ hmem with
  | known _ hentries _ =>
    cases hentries _ hfield with
    | field _ hn => exact hn

theorem gives_le (hd : d.Valid) {table name : String} {default n : Nat} (hdefault : default ≤ maxWritten)
    (h : d.Gives table name default n) : n ≤ maxWritten := by
  rcases h with h | ⟨-, rfl⟩
  · exact writes_le hd h
  · exact hdefault

/-- A written number and its place fix the number that is read. -/
theorem number?_gives (default : Nat) {table name : String} {v? : Option Value}
    (hwritten : ∀ n, d.Writes table name n → v? = some (.integer n))
    (habsent : (∀ n, ¬ d.Writes table name n) → v? = none) (n : Nat) :
    number? default v? = some n ↔ d.Gives table name default n := by
  by_cases hsome : ∃ m, d.Writes table name m
  · obtain ⟨m, hm⟩ := hsome
    have hread : number? default v? = some m := by
      rw [hwritten m hm]
      simp [number?]
    rw [hread]
    constructor
    · rintro ⟨⟩
      exact .inl hm
    · rintro (h | ⟨h, -⟩)
      · have := hwritten n h
        rw [hwritten m hm] at this
        cases this
        rfl
      · exact absurd hm (h m)
  · have hnone := not_exists.mp hsome
    rw [habsent hnone]
    constructor
    · rintro ⟨⟩
      exact .inr ⟨hnone, rfl⟩
    · rintro (h | ⟨-, rfl⟩)
      · exact absurd h (hnone n)
      · rfl

theorem number?_misses {default : Nat} {v : Value} (hv : ∀ n : Nat, v ≠ .integer n) :
    number? default (some v) = none := by
  cases v with
  | integer n =>
    refine if_neg fun hn => hv n.toNat ?_
    rw [Int.toNat_of_nonneg hn]
  | _ => rfl

section
variable {root : Toml.Entries} (hd : d.Valid) (hread : d.ReadBy read)
    (h : Toml.addAll [] (d.sections read) = some root)
include hd hread h

/-- The tables of a document whose fields all fit are read as the configuration that it gives. -/
theorem ofEntries?_eq (hfits : ∀ table name, ¬ d.Misses table name) (c : Config) :
    ofEntries? root = some c ↔ d.Decodes c := by
  obtain ⟨queue, hqueue, hq⟩ := fields_eq "queue" hd hread h (by decide)
  obtain ⟨stack, hstack, hs⟩ := fields_eq "stack" hd hread h (by decide)
  obtain ⟨cache, hcache, hc⟩ := fields_eq "cache" hd hread h (by decide)
  obtain ⟨ranks, hranks, hr⟩ := fields_eq "ranks" hd hread h (by decide)
  obtain ⟨hqw, -, hqa⟩ := hq 0 "initial_capacity" (by decide)
  obtain ⟨hsw, -, hsa⟩ := hs 0 "initial_capacity" (by decide)
  obtain ⟨hcw, -, hca⟩ := hc 0 "initial_capacity" (by decide)
  obtain ⟨hdw, -, hda⟩ := hr 0 "directory" (by decide)
  obtain ⟨hew, -, hea⟩ := hr 1 "entry" (by decide)
  have hq := number?_gives 0 hqw fun hno => hqa hno (hfits _ _)
  have hs := number?_gives 0 hsw fun hno => hsa hno (hfits _ _)
  have hc := number?_gives 0 hcw fun hno => hca hno (hfits _ _)
  have hd := number?_gives 10000 hdw fun hno => hda hno (hfits _ _)
  have he := number?_gives 5000 hew fun hno => hea hno (hfits _ _)
  have hread : ofEntries? root = (number? 0 (queue 0 "initial_capacity")).bind fun q =>
      (number? 0 (stack 0 "initial_capacity")).bind fun s => (number? 0 (cache 0 "initial_capacity")).bind fun k =>
        (number? 10000 (ranks 0 "directory")).bind fun d => (number? 5000 (ranks 1 "entry")).bind fun e =>
          some ⟨q, s, k, ⟨d, e⟩⟩ := by
    simp [ofEntries?, capacity?, ranks?, hqueue, hstack, hcache, hranks, Option.bind_assoc]
  rw [hread]
  simp only [Option.bind_eq_some_iff, hq, hs, hc, hd, he]
  constructor
  · rintro ⟨q, hq, s, hs, k, hk, d, hd, e, he, ⟨⟩⟩
    exact ⟨hq, hs, hk, hd, he⟩
  · rintro ⟨hq, hs, hk, hd, he⟩
    exact ⟨_, hq, _, hs, _, hk, _, hd, _, he, rfl⟩

/-- A field that does not fit spoils the document. -/
theorem ofEntries?_eq_none {table name : String} (htable : table ∈ sectionNames) (hname : name ∈ fieldNames table)
    (hmisses : d.Misses table name) : ofEntries? root = none := by
  obtain ⟨field, hfield, hfields⟩ := fields_eq table hd hread h htable
  have hnone (position default : Nat) : number? default (field position name) = none := by
    obtain ⟨-, hmisses', -⟩ := hfields position name hname
    obtain ⟨v, hv, hread⟩ := hmisses' hmisses
    rw [hread, number?_misses hv]
  have hcapacity (hsame : name = "initial_capacity") : capacity? root table = none := by
    rw [capacity?, hfield]
    exact hsame ▸ hnone 0 0
  simp only [sectionNames, List.mem_cons, List.not_mem_nil, or_false] at htable
  unfold ofEntries?
  rcases htable with rfl | rfl | rfl | rfl
  · simp [hcapacity (List.mem_singleton.mp hname)]
  · simp [hcapacity (List.mem_singleton.mp hname)]
  · simp [hcapacity (List.mem_singleton.mp hname)]
  · have hranks : ranks? root = none := by
      simp only [fieldNames, List.mem_cons, List.not_mem_nil, or_false] at hname
      rcases hname with rfl | rfl <;> simp [ranks?, hfield, hnone]
    simp [hranks]

end

/-! ## Reading a document -/

theorem validate_decoded (hd : d.Valid) {c : Config} (h : d.Decodes c) :
    c.validate.map (fun _ => c) = if c.ranks.entry < c.ranks.directory then .ok c
      else .error (.invalidConfig (.ranksInverted c.ranks.directory c.ranks.entry)) := by
  have hdirectory := gives_le hd (by decide) h.directory
  have hentry := gives_le hd (by decide) h.entry
  have hreserved : ¬ (c.ranks.directory = Rank.unbounded ∨ c.ranks.entry = Rank.unbounded) := by
    have hlt : maxWritten < Rank.unbounded := by decide
    rintro (h | h)
    · exact absurd (h ▸ hdirectory) (Nat.not_le.mpr hlt)
    · exact absurd (h ▸ hentry) (Nat.not_le.mpr hlt)
  unfold validate RegistryRanks.validate
  rw [if_neg hreserved]
  by_cases hlt : c.ranks.entry < c.ranks.directory
  · rw [if_neg (Nat.not_le.mpr hlt), if_pos hlt]
    rfl
  · rw [if_pos (Nat.not_lt.mp hlt), if_neg hlt]
    rfl

theorem exists_gives (table name : String) (default : Nat) : ∃ n, d.Gives table name default n := by
  by_cases h : ∃ n, d.Writes table name n
  · obtain ⟨n, hn⟩ := h
    exact ⟨n, .inl hn⟩
  · exact ⟨default, .inr ⟨not_exists.mp h, rfl⟩⟩

theorem exists_decodes : ∃ c, d.Decodes c := by
  obtain ⟨queue, hqueue⟩ := d.exists_gives "queue" "initial_capacity" 0
  obtain ⟨stack, hstack⟩ := d.exists_gives "stack" "initial_capacity" 0
  obtain ⟨cache, hcache⟩ := d.exists_gives "cache" "initial_capacity" 0
  obtain ⟨directory, hdirectory⟩ := d.exists_gives "ranks" "directory" 10000
  obtain ⟨entry, hentry⟩ := d.exists_gives "ranks" "entry" 5000
  exact ⟨⟨queue, stack, cache, ⟨directory, entry⟩⟩, hqueue, hstack, hcache, hdirectory, hentry⟩

theorem parse_unknown (read : Entry → Line) (hparts : ∀ p ∈ d.parts, p.Valid) {text : String} (h : d.unknown.Spells text) :
    Toml.parse text = Toml.addAll [] (d.unknown.sections read) := by
  refine parse_eq (fun text hmem => by cases hmem) (fun p hp => hparts p (List.mem_of_mem_filter hp)) ?_ h
  intro table entries hmem
  cases (List.mem_filter.mp hmem).2

/-- The known sections never keep a document from being one. -/
theorem addAll_sections (hd : d.Valid) (hread : d.ReadBy read) : ∃ root, Toml.addAll [] (d.sections read) = some root := by
  rw [← Option.isSome_iff_exists]
  refine Toml.addAll_isSome (apart hd.parts hread) (distinct hd.parts hd.names) (fun _ _ _ => rfl) ?_
  rw [others hd.parts]
  obtain ⟨text, htext, hparse⟩ := hd.unknown
  rwa [parse_unknown read hd.parts htext] at hparse

theorem readBy_of_fits (hd : d.Valid) (hfits : d.Fits) : ∃ read, d.ReadBy read := by
  obtain ⟨read, hread⟩ := exists_read
  refine ⟨read, fun table entries hmem e he => ?_⟩
  cases hd.parts _ hmem with
  | known _ hentries _ =>
    obtain ⟨l, -, hl⟩ := (hentries e he).reads_of_fits fun name text heq => hfits table entries hmem name text (heq ▸ he)
    refine hread table e (hentries e he) fun hno => ?_
    have := hl [] [] .last
    rw [hno [] [] .last] at this
    cases this

/-- A document whose fields all fit. -/
theorem parse_fits (hd : d.Valid) (hfits : d.Fits) {text : String} (htext : d.Spells text) (c : Config) :
    (Toml.parse text).bind ofEntries? = some c ↔ d.Decodes c := by
  obtain ⟨read, hread⟩ := readBy_of_fits hd hfits
  obtain ⟨root, hroot⟩ := addAll_sections hd hread
  have hmisses (table name : String) : ¬ d.Misses table name := by
    rintro ⟨entries, text, hmem, he⟩
    exact hfits table entries hmem name text he
  rw [parse_eq hd.preamble hd.parts hread htext, hroot, Option.bind_some]
  exact ofEntries?_eq hd hread hroot hmisses c

theorem isLine_or (hd : d.Valid) : ∀ text ∈ d.texts, (∃ l, IsLine text l) ∨ IsNoLine text := by
  intro text htext
  rcases List.mem_append.mp htext with hmem | hmem
  · exact .inl ⟨_, hd.preamble text hmem⟩
  · obtain ⟨p, hp, hmem⟩ := List.mem_flatMap.mp hmem
    cases hd.parts p hp with
    | known hname hentries _ =>
      rcases List.mem_cons.mp hmem with rfl | hmem
      · exact .inl ⟨_, Toml.isLine_header (isBare_section hname)⟩
      · obtain ⟨e, he, rfl⟩ := List.mem_map.mp hmem
        exact (hentries e he).reads.imp_left fun ⟨l, _, hl⟩ => ⟨l, hl⟩
    | unknown hheader _ _ hbody =>
      rcases List.mem_cons.mp hmem with rfl | hmem
      · exact .inl ⟨_, hheader⟩
      · obtain ⟨l, hl, rfl⟩ := List.mem_map.mp hmem
        exact .inl ⟨_, (hbody l hl).1⟩

theorem text_mem {table : String} {entries : List Entry} {e : Entry} (hmem : .known table entries ∈ d.parts)
    (he : e ∈ entries) : e.text ∈ d.texts :=
  List.mem_append_right _ (List.mem_flatMap.mpr ⟨_, hmem, List.mem_cons_of_mem _ (List.mem_map_of_mem he)⟩)

/-- A document with a field that does not fit. -/
theorem parse_misses (hd : d.Valid) (hmisfit : ¬ d.Fits) {text : String} (htext : d.Spells text) :
    (Toml.parse text).bind ofEntries? = none := by
  unfold Fits at hmisfit
  push Not at hmisfit
  obtain ⟨table, entries, hmem, name, bad, hbad⟩ := hmisfit
  by_cases hrefused : ∃ text ∈ d.texts, IsNoLine text
  · have hnone := htext.refused (isLine_or hd) hrefused
    rw [Toml.parse, dropMark hd.preamble hd.parts htext, hnone]
    rfl
  · obtain ⟨read, hread⟩ := exists_read
    have hread : d.ReadBy read := by
      intro table entries hmem e he
      cases hd.parts _ hmem with
      | known _ hentries _ => exact hread table e (hentries e he) fun hno => hrefused ⟨_, text_mem hmem he, hno⟩
    rw [parse_eq hd.preamble hd.parts hread htext]
    cases hroot : Toml.addAll [] (d.sections read) with
    | none => rfl
    | some root =>
      cases hd.parts _ hmem with
      | known htable hentries _ =>
        cases hentries _ hbad with
        | misfit hname _ => exact ofEntries?_eq_none hd hread hroot htable hname ⟨entries, bad, hmem, hbad⟩

/-- The one configuration that a document gives, and what is made of the document. -/
theorem parse_decoded (hd : d.Valid) (hfits : d.Fits) {text : String} (htext : d.Spells text) {c : Config}
    (hc : d.Decodes c) :
    (∀ c', d.Decodes c' ↔ c' = c) ∧ parse text = if c.ranks.entry < c.ranks.directory then .ok c
      else .error (.invalidConfig (.ranksInverted c.ranks.directory c.ranks.entry)) := by
  have hread := (parse_fits hd hfits htext c).mpr hc
  constructor
  · intro c'
    rw [← parse_fits hd hfits htext c', hread, Option.some_inj]
    exact eq_comm
  · rw [← validate_decoded hd hc]
    exact Config.parse_eq hread

theorem Decodes.of_writes {d' : Doc} {c : Config} (hc : d.Decodes c)
    (h : ∀ table name n, d.Writes table name n ↔ d'.Writes table name n) : d'.Decodes c := by
  have hgives (table name : String) (default n : Nat) (hn : d.Gives table name default n) :
      d'.Gives table name default n := by
    simpa only [Gives, h] using hn
  exact ⟨hgives _ _ _ _ hc.queue, hgives _ _ _ _ hc.stack, hgives _ _ _ _ hc.cache, hgives _ _ _ _ hc.directory,
    hgives _ _ _ _ hc.entry⟩

end Doc

/-- **Partial documents are read field by field.** If all fields fit, then there is exactly one configuration that has
every written number and the default for every other field, and the document is read as this configuration, or
refused because its ranks are the wrong way round. If a field does not fit, then the document is malformed. Nothing
but the written numbers counts, whatever the order is and whatever else the document has. -/
theorem partial_documents {d : Doc} (hd : d.Valid) {text : String} (htext : d.Spells text) :
    (d.Fits → ∃ c, (∀ c', d.Decodes c' ↔ c' = c) ∧
      parse text = if c.ranks.entry < c.ranks.directory then .ok c
        else .error (.invalidConfig (.ranksInverted c.ranks.directory c.ranks.entry))) ∧
    (¬ d.Fits → parse text = .error .malformed) ∧
    ∀ (d' : Doc) (text' : String), d'.Valid → d'.Spells text' → d.Fits → d'.Fits →
      (∀ table name n, d.Writes table name n ↔ d'.Writes table name n) → parse text = parse text' := by
  obtain ⟨c, hc⟩ := d.exists_decodes
  refine ⟨fun hfits => ⟨c, Doc.parse_decoded hd hfits htext hc⟩, fun hmisfit => ?_, ?_⟩
  · rw [parse, Doc.parse_misses hd hmisfit htext]
  · intro d' text' hd' htext' hfits hfits' hsame
    rw [(Doc.parse_decoded hd hfits htext hc).2, (Doc.parse_decoded hd' hfits' htext' (hc.of_writes hsame)).2]

/-- The ranks before the capacities, among unknown keys and sections. -/
def shuffled (entry : Entry) : Doc where
  preamble := [[]]
  parts := [.known "ranks" [.other "colour = 7".toList "colour" (.integer 7), entry],
    .unknown "[extra]".toList (.table [] "extra") [("entry = 1".toList, .assignment ⟨[], "entry", .integer 1⟩)],
    .known "queue" [.field "initial_capacity" 64]]

def sorted : Doc where
  parts := [.known "queue" [.field "initial_capacity" 64], .known "ranks" [.field "entry" 100]]

/-- The text of a document with a newline after each line. -/
def Doc.spelling (d : Doc) : String := String.ofList (d.texts.flatMap (· ++ ['\n']))

theorem Doc.spells_spelling (d : Doc) : d.Spells d.spelling := by
  rw [Spells, spelling, String.toList_ofList]
  exact .newlines d.texts

theorem queue_valid : Part.Valid (.known "queue" [.field "initial_capacity" 64]) :=
  .known (by decide) (List.forall_mem_singleton.mpr (.field (by decide) (by decide))) (by decide)

theorem shuffled_valid {e : Entry} (he : e.Valid "ranks") (hkey : e.key? = some "entry") : (shuffled e).Valid := by
  have hother (key : String) (n : Nat) (hbare : Toml.isBare key.toList = true) (hn : n ≤ 9223372036854775807) :
      IsLine (Toml.fieldLine key (Nat.toDigits 10 n)) (.assignment ⟨[], key, .integer n⟩) :=
    Toml.isLine_field hbare (isSigned_of_le hn)
  have hextra : Part.Valid (.unknown "[extra]".toList (.table [] "extra")
      [("entry = 1".toList, .assignment ⟨[], "entry", .integer 1⟩)]) := by
    refine .unknown (Toml.isLine_header (by decide : Toml.isBare "extra".toList = true)) rfl (by decide) ?_
    exact List.forall_mem_singleton.mpr ⟨hother "entry" 1 (by decide) (by decide), rfl⟩
  have hranks : Part.Valid (.known "ranks" [.other "colour = 7".toList "colour" (.integer 7), e]) := by
    refine .known (by decide) ?_ ?_
    · exact List.forall_mem_cons.mpr ⟨.other (by decide) (hother "colour" 7 (by decide) (by decide)),
        List.forall_mem_singleton.mpr he⟩
    · rw [List.filterMap_cons, List.filterMap_cons, hkey]
      decide
  have hparts : ∀ p ∈ (shuffled e).parts, p.Valid :=
    List.forall_mem_cons.mpr ⟨hranks, List.forall_mem_cons.mpr ⟨hextra, List.forall_mem_singleton.mpr queue_valid⟩⟩
  have hnames : ["ranks", "queue"].Nodup := by decide
  refine ⟨List.forall_mem_singleton.mpr Toml.isLine_blank, hparts, hnames, _, Doc.spells_spelling _, ?_⟩
  rw [Doc.parse_unknown (fun _ => .blank) hparts (Doc.spells_spelling _)]
  rfl

theorem sorted_valid : sorted.Valid := by
  have hranks : Part.Valid (.known "ranks" [.field "entry" 100]) :=
    .known (by decide) (List.forall_mem_singleton.mpr (.field (by decide) (by decide))) (by decide)
  have hparts : ∀ p ∈ sorted.parts, p.Valid :=
    List.forall_mem_cons.mpr ⟨queue_valid, List.forall_mem_singleton.mpr hranks⟩
  refine ⟨(fun text hmem => by cases hmem), hparts, by decide, _, Doc.spells_spelling _, ?_⟩
  rw [Doc.parse_unknown (fun _ => .blank) hparts (Doc.spells_spelling _)]
  rfl

theorem shuffled_writes (table name : String) (n : Nat) :
    (shuffled (.field "entry" 100)).Writes table name n ↔ sorted.Writes table name n := by
  simp only [Doc.Writes, shuffled, sorted, List.mem_cons, List.not_mem_nil, or_false, Part.known.injEq]
  constructor
  · rintro ⟨entries, ⟨rfl, rfl⟩ | h | ⟨rfl, rfl⟩, hmem⟩
    · rcases List.mem_cons.mp hmem with h | hmem
      · cases h
      · exact ⟨_, .inr ⟨rfl, rfl⟩, hmem⟩
    · cases h
    · exact ⟨_, .inl ⟨rfl, rfl⟩, hmem⟩
  · rintro ⟨entries, ⟨rfl, rfl⟩ | ⟨rfl, rfl⟩, hmem⟩
    · exact ⟨_, .inr (.inr ⟨rfl, rfl⟩), hmem⟩
    · exact ⟨_, .inl ⟨rfl, rfl⟩, List.mem_cons_of_mem _ hmem⟩

theorem sorted_decodes : sorted.Decodes ⟨64, 0, 0, ⟨10000, 100⟩⟩ := by
  have hmissing {table name : String} (h : ∀ n, ¬ sorted.Writes table name n) (default : Nat) :
      sorted.Gives table name default default := .inr ⟨h, rfl⟩
  refine ⟨.inl ⟨_, List.mem_cons_self, List.mem_cons_self⟩, hmissing ?_ 0, hmissing ?_ 0, hmissing ?_ 10000,
    .inl ⟨_, List.mem_cons_of_mem _ List.mem_cons_self, List.mem_cons_self⟩⟩ <;> simp [Doc.Writes, sorted]

theorem partial_documents_shuffled_and_negative :
    parse (shuffled (.field "entry" 100)).spelling = .ok ⟨64, 0, 0, ⟨10000, 100⟩⟩ ∧
    parse (shuffled (.field "entry" 100)).spelling = parse sorted.spelling ∧
    parse (shuffled (.misfit "entry" "-1".toList)).spelling = .error .malformed := by
  have hentry : Entry.Valid "ranks" (.field "entry" 100) := .field (by decide) (by decide)
  have hmisfit : Entry.Valid "ranks" (.misfit "entry" "-1".toList) :=
    .misfit (by decide) (.negative (Toml.whole_toDigits 1) (by decide))
  have hfits : (shuffled (.field "entry" 100)).Fits := by simp +contextual [Doc.Fits, shuffled, or_imp]
  have hsorted : sorted.Fits := by simp +contextual [Doc.Fits, sorted, or_imp]
  have hnot : ¬ (shuffled (.misfit "entry" "-1".toList)).Fits :=
    fun h => h "ranks" _ (List.mem_cons_self ..) "entry" _ (List.mem_cons_of_mem _ List.mem_cons_self)
  obtain ⟨hread, -, hsame⟩ := partial_documents (shuffled_valid hentry rfl) (Doc.spells_spelling _)
  obtain ⟨-, hbad, -⟩ := partial_documents (shuffled_valid hmisfit rfl) (Doc.spells_spelling _)
  refine ⟨?_, hsame sorted _ sorted_valid (Doc.spells_spelling _) hfits hsorted shuffled_writes, hbad hnot⟩
  obtain ⟨c, hc, hparse⟩ := hread hfits
  have hdecodes := sorted_decodes.of_writes fun table name n => (shuffled_writes table name n).symm
  rw [hparse, ← (hc _).mp hdecodes]
  rfl

end Interlock.Config
