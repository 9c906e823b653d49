import SdkCatalog.Proofs.Source.Registration
import SdkCatalog.Proofs.Text.Occurrence
import SdkCatalog.Proofs.Text.Trim

/-! Message configurations: where in a source the registrations lie that it gives, and that a
configuration written from entries gives these entries back. What stands between the registrations
is free, but for opening braces; the name and the flag of a registration may have them too. -/

namespace SdkCatalog.Registration

open Text

variable {typeNamespace : String} {word word' : List Char} {entry entry' : Registration}

/-- A word registers an entry: it spells the entry, and a brace closes it. -/
def Registers (typeNamespace : String) (word : List Char) (entry : Registration) : Prop :=
  ∃ spelling : Spelling, word = spelling.body typeNamespace ++ ['\x7d'] ∧ entry = spelling.entry

theorem step_eq_some_iff_registers {cs rest : List Char} :
    step typeNamespace cs = some (entry, rest) ↔
      ∃ word, cs = word ++ rest ∧ Registers typeNamespace word entry := by
  rw [step_eq_some_iff]
  constructor
  · rintro ⟨spelling, rfl, rfl⟩
    exact ⟨_, by simp, spelling, rfl, rfl⟩
  · rintro ⟨_, rfl, spelling, rfl, rfl⟩
    exact ⟨spelling, by simp, rfl⟩

/-- Where a registration begins, the step that reads it leaves the rest of the text, and so it ends
at one place only. -/
theorem Registers.eq_of_begin (h : Registers typeNamespace word entry)
    (h' : Registers typeNamespace word' entry') (hbegin : word <+: word') : word = word' := by
  obtain ⟨more, rfl⟩ := hbegin
  have hshort : step typeNamespace (word ++ more) = some (entry, more) :=
    step_eq_some_iff_registers.mpr ⟨word, rfl, h⟩
  have hlong : step typeNamespace (word ++ more) = some (entry', []) :=
    step_eq_some_iff_registers.mpr ⟨word ++ more, (List.append_nil _).symm, h'⟩
  rw [hshort] at hlong
  injection hlong with hlong
  injection hlong with _ hmore
  rw [hmore, List.append_nil]

theorem reads_step (typeNamespace : String) :
    Reads (step typeNamespace) (Registers typeNamespace) id '\x7b' where
  step_iff cs entry rest := by
    rw [step_eq_some_iff_registers]
    constructor
    · rintro ⟨word, hcs, hword⟩
      exact ⟨word, rest, hcs, hword, rfl⟩
    · rintro ⟨word, tail, hcs, hword, rfl⟩
      exact ⟨word, hcs, hword⟩
  head_word := by
    rintro _ _ ⟨spelling, rfl, -⟩
    rfl
  word_eq _ _ _ _ h h' hbegin := h.eq_of_begin h' hbegin
  skipped tail := ⟨[], rfl, List.not_mem_nil⟩

/-! ### Configurations written from entries -/

/-- A word writes an entry: it spells the parts of the entry, with blanks around the flag at will.
The flag of the entry itself has no blanks at its ends. -/
structure Writes (typeNamespace : String) (entry : Registration) (word : List Char) : Prop where
  trimmed : trim entry.flag.toList = entry.flag.toList
  spelled : ∃ (spelling : Spelling) (gap gap' : List Char),
    word = spelling.body typeNamespace ++ ['\x7d'] ∧ spelling.name = entry.name.toList ∧
    spelling.flag = gap ++ (entry.flag.toList ++ gap') ∧ Blank gap ∧ Blank gap' ∧
    spelling.contentType = entry.contentType.toList ∧
    spelling.className = entry.className.toList

theorem Writes.registers (h : Writes typeNamespace entry word) :
    Registers typeNamespace word entry := by
  obtain ⟨spelling, gap, gap', rfl, hname, hflag, hgap, hgap', hcontentType, hclassName⟩ :=
    h.spelled
  refine ⟨spelling, rfl, ?_⟩
  rw [Spelling.entry, hname, hflag, hcontentType, hclassName, trim_blank_append hgap,
    trim_append_blank hgap', h.trimmed]
  simp only [String.ofList_toList]

/-- A text configures entries: it writes them in order, and around and between them is text without
opening braces. -/
inductive Configures (typeNamespace : String) : List Registration → List Char → Prop where
  | nil {rest : List Char} (hfree : '\x7b' ∉ rest) : Configures typeNamespace [] rest
  | cons {before word rest : List Char} {entry : Registration} {entries : List Registration}
      (hbefore : '\x7b' ∉ before) (hword : Writes typeNamespace entry word)
      (hrest : Configures typeNamespace entries rest) :
      Configures typeNamespace (entry :: entries) (before ++ (word ++ rest))

theorem scan_of_configures {entries : List Registration} {cs : List Char}
    (h : Configures typeNamespace entries cs) : scan (step typeNamespace) 0 cs = entries := by
  have hreads := reads_step typeNamespace
  induction h with
  | @nil rest hfree =>
    rw [← List.append_nil rest, hreads.scan_free hfree]
    rfl
  | @cons before word rest entry entries hbefore hword hrest ih =>
    rw [hreads.scan_free hbefore, hreads.scan_word hword.registers, id, ih]

/-- A source gives the entries of registrations that lie one after the other in it, all of them in
order, and any other registration begins strictly inside one of these. A source that configures
entries gives back just these, whatever characters their names and flags have. -/
theorem scans_registrations (typeNamespace : String) :
    (∀ source : String,
      Scans (Registers typeNamespace) source.toList (ofSource typeNamespace source)) ∧
    ∀ (entries : List Registration) (source : String),
      Configures typeNamespace entries source.toList → ofSource typeNamespace source = entries :=
  ⟨fun source => (reads_step typeNamespace).scans source.toList,
    fun _ _ hconfigures => scan_of_configures hconfigures⟩

/-- Two registrations, of which the first has braces in its name and a line break in its flag. -/
theorem scans_registrations_two :
    let entries : List Registration := [⟨"\x7bb\x7d", "\x7b\n'c'", "X", "A"⟩, ⟨"d", "e", "Y", "B"⟩]
    let first := "\x7b name: '\x7bb\x7d' , flag: \x7b\n'c' , type: T.X , contentClazz: A \x7d"
    let second := "\x7bname:'d',flag:e,type:T.Y,contentClazz:B\x7d"
    let source := "a\x7d" ++ (first ++ (",\n" ++ (second ++ "]")))
    Configures "T" entries source.toList ∧ ofSource "T" source = entries := by
  intro entries first second source
  have hblank : Blank [' '] := List.all_eq_true.mp rfl
  have hnone : Blank [] := List.forall_mem_nil _
  let parts : Spelling :=
    { gap := fun _ => [' '], name := "\x7bb\x7d".toList, flag := " \x7b\n'c' ".toList
      contentType := ['X'], className := ['A'], blank := fun _ => List.all_eq_true.mp rfl
      name_ne := by decide, name_free := fun _ hc => ne_of_mem_of_not_mem hc (by decide)
      flag_ne := by decide, flag_free := fun _ hc => ne_of_mem_of_not_mem hc (by decide)
      contentType_ne := by decide, contentType_word := List.all_eq_true.mp rfl
      className_ne := by decide, className_word := List.all_eq_true.mp rfl }
  let parts' : Spelling :=
    { gap := fun _ => [], name := ['d'], flag := ['e'], contentType := ['Y'], className := ['B']
      blank := fun _ => List.forall_mem_nil _
      name_ne := by decide, name_free := fun _ hc => ne_of_mem_of_not_mem hc (by decide)
      flag_ne := by decide, flag_free := fun _ hc => ne_of_mem_of_not_mem hc (by decide)
      contentType_ne := by decide, contentType_word := List.all_eq_true.mp rfl
      className_ne := by decide, className_word := List.all_eq_true.mp rfl }
  have hfirst : Writes "T" ⟨"\x7bb\x7d", "\x7b\n'c'", "X", "A"⟩ first.toList :=
    ⟨by decide, parts, [' '], [' '], by decide +kernel, rfl, rfl, hblank, hblank, rfl, rfl⟩
  have hsecond : Writes "T" ⟨"d", "e", "Y", "B"⟩ second.toList :=
    ⟨by decide, parts', [], [], by decide +kernel, rfl, rfl, hnone, hnone, rfl, rfl⟩
  have hconfigures : Configures "T" entries source.toList := by
    simp only [source, String.toList_append]
    exact .cons (by decide) hfirst (.cons (by decide) hsecond (.nil (by decide)))
  exact ⟨hconfigures, (scans_registrations "T").2 entries source hconfigures⟩

end SdkCatalog.Registration
