import Interlock.Proofs.Toml.Written
import Interlock.Table

/-!
# Documents of sections

What the lines of a document make (`Written`), and what its sections do to the tables. A section changes the top
table at one name only (`alter`), and neither reads nor writes what stands at the others. So sections of other
names leave a table alone that a section has made, and make what they would make without it.
-/

namespace Interlock.Toml

/-! ## Lines -/

/-- The lines of a document. Each has its line end, but perhaps the last. -/
inductive Written : List (List Char) → List Char → Prop
  | nil : Written [] []
  | cons {text rest rest' : List Char} {texts : List (List Char)} : LineEnd rest rest' → Written texts rest' →
      (rest = [] → texts = []) → Written (text :: texts) (text ++ rest)

/-- Lines can always be written. -/
theorem Written.newlines (texts : List (List Char)) : Written texts (texts.flatMap (· ++ ['\n'])) := by
  induction texts with
  | nil => exact .nil
  | cons text texts ih =>
    rw [List.flatMap_cons, List.append_assoc]
    exact .cons (.newline _) ih nofun

section
variable {texts : List (List Char)} {cs rest rest' text : List Char} {ls : List Line} {l : Line}

theorem LineEnd.length_lt (h : LineEnd rest rest') (hne : text ++ rest ≠ []) :
    rest'.length < (text ++ rest).length := by
  cases h with
  | last => exact List.length_pos_iff.mpr hne
  | newline rest =>
    simp only [List.length_append, List.length_cons]
    omega
  | returned rest =>
    simp only [List.length_append, List.length_cons]
    omega

/-- The mark in front of a document is no part of a line. -/
theorem line_mark (cs : List Char) : line ('\ufeff' :: cs) = none := by
  have hpart : keyPart ('\ufeff' :: cs) = none := by
    have hspan : ('\ufeff' :: cs).span isBareKey = ([], '\ufeff' :: cs) := by
      rw [List.span_eq_takeWhile_dropWhile]
      rfl
    rw [keyPart, if_neg (by decide), hspan]
    rfl
  have hskip : skipBlanks ('\ufeff' :: cs) = '\ufeff' :: cs := rfl
  have hparts : keyParts ('\ufeff' :: cs) = none := by
    rw [keyParts]
    simp only [hskip, hpart]
  have hkey : key ('\ufeff' :: cs) = none := by
    rw [key, hparts]
    rfl
  have hend : lineEnd? ('\ufeff' :: cs) = none := rfl
  have hassignment (v : Scan Value) : assignment v ('\ufeff' :: cs) = none := by
    rw [assignment, hkey]
    rfl
  unfold line
  rw [hend]
  simp only [hskip]
  split
  · rename_i h
    exact absurd (List.cons.inj h).1 (by decide)
  · rw [hassignment]
    rfl

theorem IsLine.no_mark (h : IsLine text l) : text.head? ≠ some '\ufeff' := by
  intro hmark
  obtain ⟨cs, rfl⟩ := List.head?_eq_some_iff.mp hmark
  have := h [] [] .last
  rw [List.append_nil, line_mark] at this
  cases this

theorem Written.dropMark (h : Written texts cs) (hall : ∀ text ∈ texts, text.head? ≠ some '\ufeff') :
    dropMark cs = cs := by
  unfold Toml.dropMark
  split
  · rename_i cs'
    exfalso
    generalize hcs : '\ufeff' :: cs' = cs at h
    cases h with
    | nil => cases hcs
    | @cons text rest rest' texts hend hmore hlast =>
      cases text with
      | nil =>
        have hhead : rest.head? = some '\ufeff' := by
          rw [← List.nil_append rest, ← hcs]
          rfl
        rcases hend.head hhead with h | h <;> exact absurd h (by decide)
      | cons c text =>
        obtain ⟨rfl, -⟩ := List.cons.inj hcs
        exact hall _ List.mem_cons_self rfl
  · rfl

/-- A line that is there only in so far as the one before has a line end is blank, and none. -/
theorem sections_blank (h : Header) : sections h [.blank] = sections h [] := rfl

/-- The lines of a document are read one by one. -/
theorem Written.read (h : Written texts cs) (hall : List.Forall₂ IsLine texts ls) :
    ∃ ls', lines cs = some ls' ∧ ∀ h, sections h ls' = sections h ls := by
  induction h generalizing ls with
  | nil =>
    cases hall
    exact ⟨[], by rw [lines], fun _ => rfl⟩
  | @cons text rest rest' texts hend hmore hlast ih =>
    cases hall with
    | @cons _ l _ ls hl hall =>
      have hline := hl rest rest' hend
      obtain ⟨ls', hread, hsections⟩ := ih hall
      by_cases hnil : text ++ rest = []
      · obtain ⟨rfl, rfl⟩ := List.append_eq_nil_iff.mp hnil
        cases hend
        cases hlast rfl
        cases hall
        obtain rfl : Line.blank = l := (Prod.mk.inj (Option.some.inj hline)).1
        exact ⟨[], by rw [List.append_nil, lines], sections_blank⟩
      · refine ⟨l :: ls', by rw [lines_cons hline (hend.length_lt hnil), hread]; rfl, fun h => ?_⟩
        cases l <;> simp [sections, hsections]

/-- A document is refused if one of its lines is. -/
theorem Written.refused (h : Written texts cs) (hall : ∀ text ∈ texts, (∃ l, IsLine text l) ∨ IsNoLine text)
    (hsome : ∃ text ∈ texts, IsNoLine text) : lines cs = none := by
  induction h with
  | nil =>
    obtain ⟨text, hmem, -⟩ := hsome
    cases hmem
  | @cons text rest rest' texts hend hmore hlast ih =>
    obtain ⟨hfirst, hall⟩ := List.forall_mem_cons.mp hall
    have hnil (h : line (text ++ rest) = none) : text ++ rest ≠ [] := by
      intro hnil
      rw [hnil] at h
      cases h
    rcases hfirst with ⟨l, hl⟩ | hno
    · have hline := hl rest rest' hend
      obtain ⟨text', hmem, hno⟩ := hsome
      rcases List.mem_cons.mp hmem with rfl | hmem
      · rw [hno rest rest' hend] at hline
        cases hline
      · have hne : text ++ rest ≠ [] := by
          intro hnil
          rw [hlast (List.append_eq_nil_iff.mp hnil).2] at hmem
          cases hmem
        rw [lines_cons hline (hend.length_lt hne), ih hall ⟨text', hmem, hno⟩]
        rfl
    · have hline := hno rest rest' hend
      obtain ⟨c, cs, hcs⟩ := List.exists_cons_of_ne_nil (hnil hline)
      rw [hcs] at hline ⊢
      rw [lines]
      simp only [hline]

end

/-! ## Sections of lines -/

def Line.assignment? : Line → Option Assignment
  | .assignment a => some a
  | _ => none

def Line.isHeader : Line → Bool
  | .header _ => true
  | _ => false

/-- Lines without a header among them belong to the section that they are in. -/
theorem sections_append {ls rest : List Line} {more : List Section} (h : Header) (hls : ∀ l ∈ ls, l.isHeader = false)
    (hrest : sections h rest = ⟨h, []⟩ :: more) :
    sections h (ls ++ rest) = ⟨h, ls.filterMap Line.assignment?⟩ :: more := by
  induction ls with
  | nil => exact hrest
  | cons l ls ih =>
    obtain ⟨hl, hmore⟩ := List.forall_mem_cons.mp hls
    cases l with
    | blank => exact ih hmore
    | header h' => cases hl
    | assignment a => simp [sections, ih hmore, Line.assignment?]

/-- A header and the lines under it. -/
abbrev Block := Header × List Line

def Block.lines (b : Block) : List Line := .header b.1 :: b.2

def Block.section (b : Block) : Section := ⟨b.1, b.2.filterMap Line.assignment?⟩

theorem sections_blocks {ls : List Line} {bs : List Block} (h : Header) (hls : ∀ l ∈ ls, l.isHeader = false)
    (hbs : ∀ b ∈ bs, ∀ l ∈ b.2, l.isHeader = false) :
    sections h (ls ++ bs.flatMap Block.lines) = ⟨h, ls.filterMap Line.assignment?⟩ :: bs.map Block.section := by
  induction bs generalizing h ls with
  | nil => exact sections_append h hls rfl
  | cons b bs ih =>
    obtain ⟨hb, hmore⟩ := List.forall_mem_cons.mp hbs
    rw [List.flatMap_cons, Block.lines, List.cons_append, sections_append h hls rfl, ih b.1 hb hmore]
    rfl

/-! ## Tables of a top table -/

namespace Entries

variable {es es' : Entries} {key key' : String} {v : Value}

theorem find_eq (key : String) (es : Entries) : find key es = Interlock.Entries.find key es := by
  induction es with
  | nil => rfl
  | cons e es ih => rw [find, Interlock.Entries.find, ih]

theorem put_eq (key : String) (v : Value) (es : Entries) : put key v es = Interlock.Entries.put key v es := by
  induction es with
  | nil => rfl
  | cons e es ih => rw [put, Interlock.Entries.put, ih]

theorem find_put : find key' (put key v es) = if key = key' then some v else find key' es := by
  rw [find_eq, put_eq, Interlock.Entries.find_put, find_eq]

theorem find_append (key : String) (es es' : Entries) :
    find key (es ++ es') = (find key es).or (find key es') := by
  induction es with
  | nil => rfl
  | cons e es ih =>
    rw [List.cons_append, find, find, ih]
    split <;> rfl

/-- What stands at a name, changed as `change` says, which may refuse. -/
def alter (name : String) (change : Option Value → Option Value) (es : Entries) : Option Entries :=
  (change (find name es)).map fun v => put name v es

/-- The entries at the names that are not listed. -/
def without (names : List String) (es : Entries) : Entries := es.filter fun e => decide (e.1 ∉ names)

variable {names : List String} {name : String}

theorem find_without (hname : name ∉ names) : find name (es.without names) = find name es := by
  induction es with
  | nil => rfl
  | cons e es ih =>
    unfold without at *
    by_cases he : e.1 ∈ names
    · have hne : e.1 ≠ name := fun h => hname (h ▸ he)
      rw [List.filter_cons_of_neg (by simp [he]), ih]
      exact (if_neg hne).symm
    · rw [List.filter_cons_of_pos (by simp [he]), find, find, ih]

theorem put_without (hname : name ∉ names) : (put name v es).without names = put name v (es.without names) := by
  induction es with
  | nil => simp [put, without, hname]
  | cons e es ih =>
    unfold without at *
    by_cases hk : e.1 = name
    · have he : e.1 ∉ names := hk ▸ hname
      rw [List.filter_cons_of_pos (by simp [he]), put, put, if_pos hk, if_pos hk]
      exact List.filter_cons_of_pos (by simp [hname])
    · rw [put, if_neg hk]
      by_cases he : e.1 ∈ names
      · rw [List.filter_cons_of_neg (by simp [he]), List.filter_cons_of_neg (by simp [he]), ih]
      · rw [List.filter_cons_of_pos (by simp [he]), List.filter_cons_of_pos (by simp [he]), put, if_neg hk, ih]

theorem without_put (hname : name ∈ names) : (put name v es).without names = es.without names := by
  induction es with
  | nil => simp [put, without, hname]
  | cons e es ih =>
    unfold without at *
    rw [put]
    split
    · rename_i hk
      rw [List.filter_cons_of_neg (by simp [hname]), List.filter_cons_of_neg (by simp [hk, hname])]
    · by_cases he : e.1 ∈ names
      · rw [List.filter_cons_of_neg (by simp [he]), List.filter_cons_of_neg (by simp [he]), ih]
      · rw [List.filter_cons_of_pos (by simp [he]), List.filter_cons_of_pos (by simp [he]), ih]

end Entries

/-! ## Sections -/

/-- The name in the top table at which a header goes in. -/
def Header.root? : Header → Option String
  | .top => none
  | .table path name => (path ++ [name]).head?
  | .element path name => (path ++ [name]).head?

/-- What a change further down makes of what stands at the first name of its path. -/
def below (change : Entries → Option Entries) (path : List String) : Option Value → Option Value
  | none => (Entries.changeAt change path []).map (.table .passage)
  | some (.tables elements) =>
    (Entries.changeAt change path (elements.getLast?.getD [])).map fun inner => .tables (elements.dropLast ++ [inner])
  | some (.table .inline _) => none
  | some (.table origin inner) => (Entries.changeAt change path inner).map (.table origin)
  | _ => none

/-- What a header with a single name makes of what stands there. -/
def underHeader (assignments : List Assignment) : Option Value → Option Value
  | none => (fill [] assignments).map (.table .header)
  | some (.table .passage inner) => (fill inner assignments).map (.table .header)
  | _ => none

def oneMore (assignments : List Assignment) : Option Value → Option Value
  | none => (fill [] assignments).map fun es => .tables [es]
  | some (.tables elements) => (fill [] assignments).map fun es => .tables (elements ++ [es])
  | _ => none

section
variable {s : Section} {root : String} {names : List String} {es es' : Entries}

theorem changeAt_alter (change : Entries → Option Entries) (part : String) (path : List String) (es : Entries) :
    Entries.changeAt change (part :: path) es = Entries.alter part (below change path) es := by
  rw [Entries.changeAt, Entries.alter]
  cases Entries.find part es with
  | none =>
    dsimp only [below]
    cases Entries.changeAt change path [] <;> rfl
  | some v =>
    cases v with
    | tables elements =>
      dsimp only [below]
      cases Entries.changeAt change path (elements.getLast?.getD []) <;> rfl
    | table origin inner =>
      cases origin with
      | inline => rfl
      | _ =>
        dsimp only [below]
        cases Entries.changeAt change path inner <;> rfl
    | _ => rfl

/-- A section changes the top table at one name, and reads nothing else of it. -/
theorem addTo_alter (hroot : s.header.root? = some root) :
    ∃ change, ∀ es, s.addTo es = Entries.alter root change es := by
  obtain ⟨header, assignments⟩ := s
  cases header with
  | top => cases hroot
  | table path name =>
    cases path with
    | nil =>
      cases hroot
      refine ⟨underHeader assignments, fun es => ?_⟩
      simp only [Section.addTo, Entries.changeAt, Entries.alter]
      cases Entries.find root es with
      | none =>
        dsimp only [underHeader]
        cases fill [] assignments <;> rfl
      | some v =>
        cases v with
        | table origin inner =>
          cases origin with
          | passage =>
            dsimp only [underHeader]
            cases fill inner assignments <;> rfl
          | _ => rfl
        | _ => rfl
    | cons part path =>
      cases hroot
      exact ⟨_, changeAt_alter _ root path⟩
  | element path name =>
    cases path with
    | nil =>
      cases hroot
      refine ⟨oneMore assignments, fun es => ?_⟩
      simp only [Section.addTo, Entries.changeAt, Entries.alter]
      cases Entries.find root es with
      | none =>
        dsimp only [oneMore]
        cases fill [] assignments <;> rfl
      | some v =>
        cases v with
        | tables elements =>
          dsimp only [oneMore]
          cases fill [] assignments <;> rfl
        | _ => rfl
    | cons part path =>
      cases hroot
      exact ⟨_, changeAt_alter _ root path⟩

theorem addTo_find {name : String} (hroot : s.header.root? = some root) (h : s.addTo es = some es')
    (hne : root ≠ name) : Entries.find name es' = Entries.find name es := by
  obtain ⟨change, hchange⟩ := addTo_alter hroot
  rw [hchange] at h
  obtain ⟨v, -, rfl⟩ := Option.map_eq_some_iff.mp h
  rw [Entries.find_put, if_neg hne]

/-- A section of a name that is not listed makes what it would make without the listed ones. -/
theorem addTo_without (hroot : s.header.root? = some root) (hnot : root ∉ names) :
    (s.addTo es).map (Entries.without names) = s.addTo (es.without names) := by
  obtain ⟨change, hchange⟩ := addTo_alter hroot
  rw [hchange, hchange, Entries.alter, Entries.alter, Entries.find_without hnot]
  cases change (Entries.find root es) with
  | none => rfl
  | some v => exact congrArg some (Entries.put_without hnot)

/-! ## Plain sections -/

/-- Single names, all different, and their values. -/
def Plain (assignments : List Assignment) : Prop :=
  (∀ a ∈ assignments, a.path = []) ∧ (assignments.map Assignment.key).Nodup

def entriesOf (assignments : List Assignment) : Entries := assignments.map fun a => (a.key, a.value)

theorem fill_plain {as : List Assignment} (h : Plain as) (hnew : ∀ a ∈ as, Entries.find a.key es = none) :
    fill es as = some (es ++ entriesOf as) := by
  induction as generalizing es with
  | nil => exact congrArg some (List.append_nil es).symm
  | cons a as ih =>
    obtain ⟨hpath, hnodup⟩ := h
    obtain ⟨hpath, hpaths⟩ := List.forall_mem_cons.mp hpath
    obtain ⟨hfresh, hnodup⟩ := List.nodup_cons.mp hnodup
    obtain ⟨hfind, hnew⟩ := List.forall_mem_cons.mp hnew
    have hassign : es.assign a.path a.key a.value = some (es ++ [(a.key, a.value)]) := by
      rw [hpath, Entries.assign, hfind]
      rfl
    have hnew' : ∀ a' ∈ as, Entries.find a'.key (es ++ [(a.key, a.value)]) = none := by
      intro a' ha'
      have hne : a.key ≠ a'.key := fun heq => hfresh (heq ▸ List.mem_map_of_mem ha')
      rw [Entries.find_append, hnew a' ha']
      exact if_neg hne
    have hmore := ih ⟨hpaths, hnodup⟩ hnew'
    rw [List.append_assoc] at hmore
    simp only [fill, List.foldlM_cons, hassign, Option.bind_eq_bind, Option.bind_some]
    exact hmore

theorem addTo_plain {name : String} {as : List Assignment} (h : Plain as) (hnew : Entries.find name es = none) :
    Section.addTo ⟨.table [] name, as⟩ es = some (Entries.put name (.table .header (entriesOf as)) es) := by
  have hfill : fill [] as = some (entriesOf as) := fill_plain h fun _ _ => rfl
  simp only [Section.addTo, Entries.changeAt, hnew, hfill]
  rfl

end

/-- The section has one of the names and holds plain assignments, or it goes in elsewhere. -/
inductive Apart (names : List String) : Section → Prop
  | plain {name : String} {as : List Assignment} : name ∈ names → Plain as → Apart names ⟨.table [] name, as⟩
  | other {s : Section} {root : String} : s.header.root? = some root → root ∉ names → Apart names s

/-- Whether the section goes in at a name that is not listed. -/
def Section.isOther (names : List String) (s : Section) : Bool :=
  match s.header.root? with
  | some root => decide (root ∉ names)
  | none => true

/-- Different sections, as far as they have one of the names. -/
def Distinct (names : List String) (ss : List Section) : Prop :=
  ss.Pairwise fun s s' => ∀ name ∈ names, s.header = .table [] name → s'.header ≠ .table [] name

def addAll (es : Entries) (ss : List Section) : Option Entries := ss.foldlM (fun es s => s.addTo es) es

section
variable {names : List String} {ss : List Section} {es es' : Entries} {name : String}

theorem addAll_cons (s : Section) : addAll es (s :: ss) = (s.addTo es).bind fun es => addAll es ss := rfl

theorem addAll_keeps (hss : ∀ s ∈ ss, Apart names s) (hname : name ∈ names)
    (hnone : ∀ s ∈ ss, s.header ≠ .table [] name) (h : addAll es ss = some es') :
    Entries.find name es' = Entries.find name es := by
  induction ss generalizing es with
  | nil =>
    cases h
    rfl
  | cons s ss ih =>
    obtain ⟨hs, hmore⟩ := List.forall_mem_cons.mp hss
    obtain ⟨hne, hnone⟩ := List.forall_mem_cons.mp hnone
    obtain ⟨es₁, hadd, h⟩ := Option.bind_eq_some_iff.mp h
    rw [ih hmore hnone h]
    cases hs with
    | @plain name' as _ _ =>
      refine addTo_find (rfl : Header.root? (.table [] name') = some name') hadd ?_
      rintro rfl
      exact hne rfl
    | @other _ root hroot hnot =>
      refine addTo_find hroot hadd ?_
      rintro rfl
      exact hnot hname

/-- The table of a section is what its assignments make, whatever the other sections are. -/
theorem addAll_find (hss : ∀ s ∈ ss, Apart names s) (hdistinct : Distinct names ss) (hname : name ∈ names)
    (hnew : Entries.find name es = none) {as : List Assignment} (hmem : ⟨.table [] name, as⟩ ∈ ss)
    (h : addAll es ss = some es') : Entries.find name es' = some (.table .header (entriesOf as)) := by
  induction ss generalizing es with
  | nil => cases hmem
  | cons s ss ih =>
    obtain ⟨hs, hss'⟩ := List.forall_mem_cons.mp hss
    obtain ⟨hfirst, hdistinct'⟩ := List.pairwise_cons.mp hdistinct
    rw [addAll_cons] at h
    obtain ⟨es₁, hadd, hmore⟩ := Option.bind_eq_some_iff.mp h
    rcases List.mem_cons.mp hmem with heq | hmem'
    · subst heq
      have hplain : Plain as := by
        cases hs with
        | plain _ hplain => exact hplain
        | other hroot hnot =>
          cases hroot
          exact absurd hname hnot
      rw [addTo_plain hplain hnew] at hadd
      cases hadd
      rw [addAll_keeps hss' hname (fun s hs => hfirst s hs name hname rfl) hmore, Entries.find_put, if_pos rfl]
    · refine ih hss' hdistinct' ?_ hmem' hmore
      rw [← hnew]
      cases hs with
      | @plain name' as' hname' _ =>
        refine addTo_find (rfl : Header.root? (.table [] name') = some name') hadd ?_
        rintro rfl
        exact hfirst _ hmem' _ hname rfl rfl
      | other hroot hnot =>
        refine addTo_find hroot hadd ?_
        rintro rfl
        exact hnot hname

/-- Sections of the listed names can be added to a document to which the others can be added without them. -/
theorem addAll_isSome (hss : ∀ s ∈ ss, Apart names s) (hdistinct : Distinct names ss)
    (hnew : ∀ name ∈ names, (∃ as, ⟨.table [] name, as⟩ ∈ ss) → Entries.find name es = none)
    (h : (addAll (es.without names) (ss.filter (Section.isOther names))).isSome) : (addAll es ss).isSome := by
  induction ss generalizing es with
  | nil => rfl
  | cons s ss ih =>
    obtain ⟨hs, hss'⟩ := List.forall_mem_cons.mp hss
    obtain ⟨hfirst, hdistinct'⟩ := List.pairwise_cons.mp hdistinct
    cases hs with
    | @plain name as hname hplain =>
      have hadd := addTo_plain hplain (hnew name hname ⟨as, List.mem_cons_self⟩)
      rw [List.filter_cons_of_neg (by simp [Section.isOther, Header.root?, hname]),
        ← Entries.without_put (v := .table .header (entriesOf as)) hname] at h
      rw [addAll_cons, hadd]
      refine ih hss' hdistinct' ?_ h
      rintro name' hname' ⟨as', hmem⟩
      rw [Entries.find_put, if_neg, hnew name' hname' ⟨as', List.mem_cons_of_mem _ hmem⟩]
      rintro rfl
      exact hfirst _ hmem name hname rfl rfl
    | @other _ root hroot hnot =>
      rw [List.filter_cons_of_pos (by simp [Section.isOther, hroot, hnot]), addAll_cons,
        ← addTo_without hroot hnot] at h
      rw [addAll_cons]
      cases hadd : s.addTo es with
      | none =>
        rw [hadd] at h
        cases h
      | some es₁ =>
        rw [hadd] at h
        refine ih hss' hdistinct' ?_ h
        rintro name' hname' ⟨as', hmem⟩
        rw [addTo_find hroot hadd, hnew name' hname' ⟨as', List.mem_cons_of_mem _ hmem⟩]
        rintro rfl
        exact hnot hname'

end

end Interlock.Toml
