import SdkCatalog.Proofs.Source.Listing
import SdkCatalog.Proofs.Text.Scan
import SdkCatalog.Proofs.Text.Word
import SdkCatalog.Source.Line

/-! Class declarations: how a text that begins with one is put together, which line declares which
class, and that a carriage return at the end of a line declares nothing. A class that extends
another is looked for in the whole line before any other class is. -/

namespace SdkCatalog.ClassDeclaration

open Text

variable {cs line name base rest : List Char}

/-- A text begins with the words that export a class, with its name and the rest. -/
def Exports (cs name rest : List Char) : Prop :=
  ∃ gap gap' gap'' : List Char,
    cs = "export".toList ++ (gap ++ ("default".toList ++ (gap' ++ ("class".toList ++ (gap'' ++
      (name ++ rest)))))) ∧
    (gap ≠ [] ∧ Blank gap) ∧ (gap' ≠ [] ∧ Blank gap') ∧ (gap'' ≠ [] ∧ Blank gap'') ∧
    name ≠ [] ∧ (∀ c ∈ name, isWordChar c = true) ∧ StopsAt isWordChar rest

/-- A text begins with the words that export a class and name the one it extends. -/
def Extends (cs name base : List Char) : Prop :=
  ∃ gap gap' rest : List Char,
    Exports cs name (gap ++ ("extends".toList ++ (gap' ++ (base ++ rest)))) ∧
    (gap ≠ [] ∧ Blank gap) ∧ (gap' ≠ [] ∧ Blank gap') ∧
    base ≠ [] ∧ (∀ c ∈ base, isWordChar c = true) ∧ StopsAt isWordChar rest

theorem exported?_eq_some_iff : exported? cs = some (name, rest) ↔ Exports cs name rest := by
  simp only [exported?, Option.bind_eq_bind, Option.bind_eq_some_iff, afterString?_eq_some_iff,
    afterBlanks?_eq_some_iff, run?_eq_some_iff]
  constructor
  · rintro ⟨_, rfl, _, ⟨gap, hne, hgap, rfl, -⟩, _, rfl, _, ⟨gap', hne', hgap', rfl, -⟩, _, rfl, _,
      ⟨gap'', hne'', hgap'', rfl, -⟩, hname, hword, rfl, hrest⟩
    exact ⟨gap, gap', gap'', rfl, ⟨hne, hgap⟩, ⟨hne', hgap'⟩, ⟨hne'', hgap''⟩, hname, hword, hrest⟩
  · rintro ⟨gap, gap', gap'', rfl, ⟨hne, hgap⟩, ⟨hne', hgap'⟩, ⟨hne'', hgap''⟩, hname, hword, hrest⟩
    exact ⟨_, rfl, _, ⟨gap, hne, hgap, rfl, stopsAt_cons (by decide) _⟩, _, rfl, _,
      ⟨gap', hne', hgap', rfl, stopsAt_cons (by decide) _⟩, _, rfl, _,
      ⟨gap'', hne'', hgap'', rfl, stopsAt_of_word hname hword rest⟩, hname, hword, rfl, hrest⟩

theorem extending?_eq_some_iff : extending? cs = some (name, base) ↔ Extends cs name base := by
  simp only [extending?, Option.bind_eq_bind, Option.bind_eq_some_iff, Prod.exists,
    exported?_eq_some_iff, afterString?_eq_some_iff, afterBlanks?_eq_some_iff, run?_eq_some_iff]
  constructor
  · rintro ⟨_, _, hexports, _, ⟨gap, hne, hgap, rfl, -⟩, _, rfl, _, ⟨gap', hne', hgap', rfl, -⟩, _,
      rest, ⟨hbase, hword, rfl, hrest⟩, h⟩
    injection h with h
    injection h with hname hbase'
    subst hname hbase'
    exact ⟨gap, gap', rest, hexports, ⟨hne, hgap⟩, ⟨hne', hgap'⟩, hbase, hword, hrest⟩
  · rintro ⟨gap, gap', rest, hexports, ⟨hne, hgap⟩, ⟨hne', hgap'⟩, hbase, hword, hrest⟩
    exact ⟨_, _, hexports, _, ⟨gap, hne, hgap, rfl, stopsAt_cons (by decide) _⟩, _, rfl, _,
      ⟨gap', hne', hgap', rfl, stopsAt_of_word hbase hword rest⟩, _, rest,
      ⟨hbase, hword, rfl, hrest⟩, rfl⟩

/-! ### A carriage return at the end -/

/-- A return after the text belongs to the rest, since no name ends in one. -/
theorem exports_return_iff : Exports (cs ++ ['\r']) name rest ↔
    ∃ between, rest = between ++ ['\r'] ∧ Exports cs name between := by
  constructor
  · rintro ⟨gap, gap', gap'', hcs, hgap, hgap', hgap'', hname, hword, hrest⟩
    have hwords : ∀ tail, "export".toList ++ (gap ++ ("default".toList ++ (gap' ++
        ("class".toList ++ (gap'' ++ tail))))) = ("export".toList ++ (gap ++ ("default".toList ++
          (gap' ++ ("class".toList ++ gap''))))) ++ tail :=
      fun tail => by simp only [List.append_assoc]
    rw [hwords] at hcs
    obtain ⟨between, rfl, rfl⟩ := exists_of_concat_eq_word hcs hname hword (by decide)
    exact ⟨between, rfl, gap, gap', gap'', (hwords _).symm, hgap, hgap', hgap'', hname, hword,
      hrest.of_append⟩
  · rintro ⟨between, rfl, gap, gap', gap'', rfl, hgap, hgap', hgap'', hname, hword, hrest⟩
    exact ⟨gap, gap', gap'', by simp only [List.append_assoc], hgap, hgap', hgap'', hname, hword,
      hrest.append (stopsAt_cons (by decide) _)⟩

theorem extends_return_iff : Extends (cs ++ ['\r']) name base ↔ Extends cs name base := by
  constructor
  · rintro ⟨gap, gap', rest, hexports, hgap, hgap', hbase, hword, hrest⟩
    obtain ⟨between, hbetween, hexports⟩ := exports_return_iff.mp hexports
    have hwords : ∀ tail, gap ++ ("extends".toList ++ (gap' ++ tail)) =
        (gap ++ ("extends".toList ++ gap')) ++ tail :=
      fun tail => by simp only [List.append_assoc]
    rw [hwords] at hbetween
    obtain ⟨rest, rfl, rfl⟩ := exists_of_concat_eq_word hbetween.symm hbase hword (by decide)
    rw [← hwords] at hexports
    exact ⟨gap, gap', rest, hexports, hgap, hgap', hbase, hword, hrest.of_append⟩
  · rintro ⟨gap, gap', rest, hexports, hgap, hgap', hbase, hword, hrest⟩
    refine ⟨gap, gap', rest ++ ['\r'], exports_return_iff.mpr ⟨_, ?_, hexports⟩, hgap, hgap', hbase,
      hword, hrest.append (stopsAt_cons (by decide) _)⟩
    simp only [List.append_assoc]

theorem extending?_return (cs : List Char) : extending? (cs ++ ['\r']) = extending? cs := by
  refine Option.ext ?_
  rintro ⟨name, base⟩
  rw [extending?_eq_some_iff, extending?_eq_some_iff, extends_return_iff]

theorem map_exported?_return (cs : List Char) :
    (exported? (cs ++ ['\r'])).map (·.1) = (exported? cs).map (·.1) := by
  refine Option.ext fun name => ?_
  simp only [Option.map_eq_some_iff, Prod.exists, exists_and_right, exists_eq_right,
    exported?_eq_some_iff, exports_return_iff]
  constructor
  · rintro ⟨_, between, _, h⟩
    exact ⟨between, h⟩
  · rintro ⟨between, h⟩
    exact ⟨_, between, rfl, h⟩

/-- A return at the end of a line declares nothing. -/
theorem names?_return (line : List Char) : names? (line ++ ['\r']) = names? line := by
  have hextends : leftmost? extending? (line ++ ['\r']) = leftmost? extending? line := by
    have hsame : ∀ cs, (extending? (cs ++ ['\r'])).map id = (extending? cs).map id :=
      fun cs => by rw [extending?_return]
    simpa only [Option.map_id, id] using leftmost?_concat hsame line
  have hexports := congrArg (Option.map fun name => (name, (none : Option (List Char))))
    (leftmost?_concat map_exported?_return line)
  rw [Option.map_map, Option.map_map] at hexports
  rw [names?, names?, hextends]
  split
  · rfl
  · exact hexports

/-! ### Line by line -/

theorem Exports.unique {name' rest' : List Char} (h : Exports cs name rest)
    (h' : Exports cs name' rest') : name = name' ∧ rest = rest' := by
  have hfound := exported?_eq_some_iff.mpr h
  rw [exported?_eq_some_iff.mpr h'] at hfound
  injection hfound with hfound
  injection hfound with hname hrest
  exact ⟨hname.symm, hrest.symm⟩

theorem Extends.unique {name' base' : List Char} (h : Extends cs name base)
    (h' : Extends cs name' base') : name = name' ∧ base = base' := by
  have hfound := extending?_eq_some_iff.mpr h
  rw [extending?_eq_some_iff.mpr h'] at hfound
  injection hfound with hfound
  injection hfound with hname hbase
  exact ⟨hname.symm, hbase.symm⟩

/-- A line names a class and the one it extends, or a class alone if no class in the line extends
another. Of several classes the leftmost counts. -/
inductive Names (line : List Char) : List Char → Option (List Char) → Prop
  | extending {start : Nat} {name base : List Char} : Extends (line.drop start) name base →
    (∀ earlier < start, ∀ name base, ¬Extends (line.drop earlier) name base) →
    Names line name (some base)
  | alone {start : Nat} {name rest : List Char} :
    (∀ start name base, ¬Extends (line.drop start) name base) →
    Exports (line.drop start) name rest →
    (∀ earlier < start, ∀ name rest, ¬Exports (line.drop earlier) name rest) →
    Names line name none

theorem leftmost?_extending?_eq_some_iff : leftmost? extending? line = some (name, base) ↔
    ∃ start, Extends (line.drop start) name base ∧
      ∀ earlier < start, ∀ name base, ¬Extends (line.drop earlier) name base := by
  simp only [leftmost?_eq_some_iff, Option.eq_none_iff_forall_ne_some, Prod.forall, ne_eq,
    extending?_eq_some_iff]

theorem leftmost?_exported?_eq_some_iff : leftmost? exported? line = some (name, rest) ↔
    ∃ start, Exports (line.drop start) name rest ∧
      ∀ earlier < start, ∀ name rest, ¬Exports (line.drop earlier) name rest := by
  simp only [leftmost?_eq_some_iff, Option.eq_none_iff_forall_ne_some, Prod.forall, ne_eq,
    exported?_eq_some_iff]

theorem leftmost?_extending?_eq_none_iff : leftmost? extending? line = none ↔
    ∀ start name base, ¬Extends (line.drop start) name base := by
  rw [leftmost?_eq_none_iff]
  simp only [Option.eq_none_iff_forall_ne_some, Prod.forall, ne_eq, extending?_eq_some_iff]

theorem leftmost?_exported?_eq_none_iff : leftmost? exported? line = none ↔
    ∀ start name rest, ¬Exports (line.drop start) name rest := by
  rw [leftmost?_eq_none_iff]
  simp only [Option.eq_none_iff_forall_ne_some, Prod.forall, ne_eq, exported?_eq_some_iff]

theorem names?_eq_some_iff {base? : Option (List Char)} :
    names? line = some (name, base?) ↔ Names line name base? := by
  rw [names?]
  cases hextends : leftmost? extending? line with
  | some found =>
    obtain ⟨name', base'⟩ := found
    obtain ⟨start, hfound, hfirst⟩ := leftmost?_extending?_eq_some_iff.mp hextends
    constructor
    · intro h
      injection h with h
      injection h with hname hbase
      subst hname hbase
      exact .extending hfound hfirst
    · rintro (⟨hfound', hfirst'⟩ | ⟨hnone, -, -⟩)
      · have hsame := leftmost?_extending?_eq_some_iff.mpr ⟨_, hfound', hfirst'⟩
        rw [hextends] at hsame
        injection hsame with hsame
        injection hsame with hname hbase
        rw [hname, hbase]
      · exact absurd hfound (hnone start name' base')
  | none =>
    have hnone := leftmost?_extending?_eq_none_iff.mp hextends
    constructor
    · intro h
      obtain ⟨⟨name', rest⟩, hexports, h⟩ := Option.map_eq_some_iff.mp h
      injection h with hname hbase
      subst hname hbase
      obtain ⟨start, hfound, hfirst⟩ := leftmost?_exported?_eq_some_iff.mp hexports
      exact .alone hnone hfound hfirst
    · rintro (⟨hfound, -⟩ | ⟨-, hfound, hfirst⟩)
      · exact absurd hfound (hnone _ _ _)
      · rw [leftmost?_exported?_eq_some_iff.mpr ⟨_, hfound, hfirst⟩]
        rfl

theorem ofLine?_eq_some_iff {file : String} {doc : Option String} {entry : ClassDeclaration} :
    ofLine? file line doc = some entry ↔ entry.file = file ∧
      Names line entry.name.toList (entry.base.map String.toList) ∧ entry.doc = doc := by
  simp only [ofLine?, Option.map_eq_some_iff, Prod.exists, names?_eq_some_iff]
  constructor
  · rintro ⟨name, base, hnames, rfl⟩
    refine ⟨rfl, ?_, rfl⟩
    cases base <;> simpa using hnames
  · rintro ⟨rfl, hnames, rfl⟩
    refine ⟨_, _, hnames, ?_⟩
    obtain ⟨file, name, base, doc⟩ := entry
    cases base <;> simp

/-- The line of an index in a file declares a class: the one it names, with the comment attached to
the line. -/
structure ClassAt (file source : String) (index : Nat) (entry : ClassDeclaration) : Prop where
  file : entry.file = file
  names : ∃ line, (lines source.toList)[index]? = some line ∧
    Names line entry.name.toList (entry.base.map String.toList)
  doc : entry.doc = (DocComment.find (lines source.toList) index).map String.ofList

theorem classAt_iff {file source : String} {index : Nat} {entry : ClassDeclaration} :
    ClassAt file source index entry ↔ DeclaredAt file source index entry := by
  simp only [DeclaredAt, ofLine?_eq_some_iff]
  constructor
  · rintro ⟨hfile, ⟨line, hline, hnames⟩, hdoc⟩
    exact ⟨line, hline, hfile, hnames, hdoc⟩
  · rintro ⟨line, hline, hfile, hnames, hdoc⟩
    exact ⟨hfile, ⟨line, hline, hnames⟩, hdoc⟩

theorem Names.base_eq_none_iff {base? : Option (List Char)} (h : Names line name base?) :
    base? = none ↔ ∀ start name base, ¬Extends (line.drop start) name base := by
  cases h with
  | extending hfound _ => simpa using ⟨_, _, _, hfound⟩
  | alone hnone _ _ => simpa using hnone

/-- A line names a class exactly if the words that export one stand somewhere in it. -/
theorem exists_names_iff : (∃ name base?, Names line name base?) ↔
    ∃ start name rest, Exports (line.drop start) name rest := by
  constructor
  · rintro ⟨_, _, ⟨⟨_, _, _, hexports, -⟩, -⟩ | ⟨-, hexports, -⟩⟩
    · exact ⟨_, _, _, hexports⟩
    · exact ⟨_, _, _, hexports⟩
  · rintro ⟨start, name, rest, hexports⟩
    cases hextends : leftmost? extending? line with
    | some found =>
      obtain ⟨start, hfound, hfirst⟩ := leftmost?_extending?_eq_some_iff.mp hextends
      exact ⟨_, _, .extending hfound hfirst⟩
    | none =>
      have hnone := leftmost?_extending?_eq_none_iff.mp hextends
      cases hexported : leftmost? exported? line with
      | some found =>
        obtain ⟨start, hfound, hfirst⟩ := leftmost?_exported?_eq_some_iff.mp hexported
        exact ⟨_, _, .alone hnone hfound hfirst⟩
      | none =>
        exact absurd hexports (leftmost?_exported?_eq_none_iff.mp hexported start name rest)

section

variable {file source : String} {index : Nat} {entry other : ClassDeclaration}

theorem DeclaredAt.unique (h : DeclaredAt file source index entry)
    (h' : DeclaredAt file source index other) : other = entry := by
  obtain ⟨line, hline, hentry⟩ := h
  obtain ⟨line', hline', hother⟩ := h'
  rw [hline] at hline'
  injection hline' with hline'
  rw [← hline', hentry] at hother
  injection hother with hother
  exact hother.symm

theorem exists_classAt_iff (hline : (lines source.toList)[index]? = some line) :
    (∃ entry, ClassAt file source index entry) ↔
      ∃ start name rest, Exports (line.drop start) name rest := by
  rw [← exists_names_iff]
  constructor
  · rintro ⟨entry, -, ⟨line', hline', hnames⟩, -⟩
    rw [hline] at hline'
    injection hline' with hline'
    exact ⟨_, _, hline' ▸ hnames⟩
  · rintro ⟨name, base?, hnames⟩
    refine ⟨⟨file, .ofList name, base?.map .ofList, _⟩, rfl, ⟨line, hline, ?_⟩, rfl⟩
    cases base? <;> simpa using hnames

theorem ClassAt.base_eq_none_iff (h : ClassAt file source index entry)
    (hline : (lines source.toList)[index]? = some line) :
    entry.base = none ↔ ∀ start name base, ¬Extends (line.drop start) name base := by
  obtain ⟨line', hline', hnames⟩ := h.names
  rw [hline] at hline'
  injection hline' with hline'
  subst hline'
  rw [← hnames.base_eq_none_iff, Option.map_eq_none_iff]

end

theorem lists_ofSource (file source : String) :
    Lists (lines source.toList).length (ClassAt file source) (ofSource file source) :=
  (lists_attach (fun item : List Char × Option String => ofLine? file item.1 item.2)
    (lines source.toList)).congr fun _ _ => classAt_iff.symm

/-- A file gives one class for each line that exports one, in the order of the lines: the leftmost
that extends another, if there is one in the line, and otherwise the leftmost, without a base. Where
such words begin they are read in one way only. -/
theorem lists_exported_classes (file source : String) :
    Lists (lines source.toList).length (ClassAt file source) (ofSource file source) ∧
    (∀ index entry other, ClassAt file source index entry → ClassAt file source index other →
      other = entry) ∧
    (∀ (index : Nat) line, (lines source.toList)[index]? = some line →
      ((∃ entry, ClassAt file source index entry) ↔
        ∃ start name rest, Exports (line.drop start) name rest) ∧
      ∀ entry, ClassAt file source index entry →
        (entry.base = none ↔ ∀ start name base, ¬Extends (line.drop start) name base)) ∧
    (∀ cs name base name' base', Extends cs name base → Extends cs name' base' →
      name = name' ∧ base = base') ∧
    ∀ cs name rest name' rest', Exports cs name rest → Exports cs name' rest' →
      name = name' ∧ rest = rest' :=
  ⟨lists_ofSource file source,
    fun _ _ _ h h' => (classAt_iff.mp h).unique (classAt_iff.mp h'),
    fun _ _ hline => ⟨exists_classAt_iff hline, fun _ h => h.base_eq_none_iff hline⟩,
    fun _ _ _ _ _ => Extends.unique, fun _ _ _ _ _ => Exports.unique⟩

/-- A class that extends another counts before one that stands left of it, and a base glued to the
word before it is none. -/
example : ofSource "a.js" "export default class A;export default class B extends C" =
      [⟨"a.js", "B", some "C", none⟩] ∧
    ofSource "a.js" "/** c */\nxexport default class extends extendsD" =
      [⟨"a.js", "extends", none, some "/** c */"⟩] := by
  decide +kernel

end SdkCatalog.ClassDeclaration
