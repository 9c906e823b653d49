import SdkCatalog.Proofs.Settings.Entries
import SdkCatalog.Proofs.Workspace

/-! The class suffixes of loaded settings. There is always one. Empty texts in a sequence are passed
over, but an empty text that stands alone is taken, and then every regular file of a directory is a
source file. -/

namespace SdkCatalog

open Files
open Yaml (Value)

variable {read : Yaml.Reader} {files : Files} {path root directory file : Path}
  {value entry : Value} {suffix : String}

/-! ### Suffixes of an entry -/

namespace Settings

/-- An entry names a suffix: it is that text, or a sequence with the text in it. -/
inductive Names : Value → String → Prop
  | text (suffix : String) : Names (.text suffix) suffix
  | item {items : List Value} {suffix : String} :
    .text suffix ∈ items → Names (.sequence items) suffix

theorem text?_eq_some_iff {item : Value} : item.text? = some suffix ↔ item = .text suffix := by
  cases item <;> simp [Value.text?]

theorem mem_suffixes_iff :
    suffix ∈ entry.suffixes ↔ Names entry suffix ∧ (suffix = "" → entry = .text "") := by
  constructor
  · intro h
    cases entry with
    | text value =>
      obtain rfl := List.mem_singleton.mp h
      exact ⟨.text suffix, fun hempty => congrArg Value.text hempty⟩
    | sequence items =>
      obtain ⟨hmem, hne⟩ := List.mem_filter.mp h
      obtain ⟨item, hitem, htext⟩ := List.mem_filterMap.mp hmem
      rw [text?_eq_some_iff] at htext
      exact ⟨.item (htext ▸ hitem), fun hempty => absurd hempty (of_decide_eq_true hne)⟩
    | _ => simp [Value.suffixes] at h
  · intro h
    obtain ⟨hnames, hempty⟩ := h
    cases hnames with
    | text => exact List.mem_singleton_self suffix
    | item hitem =>
      have hne : suffix ≠ "" := fun h => by simpa using hempty h
      exact List.mem_filter.mpr ⟨List.mem_filterMap.mpr ⟨_, hitem, rfl⟩, decide_eq_true hne⟩

/-- An entry gives no suffix when it names none but the empty one, and is not the empty text
itself. -/
theorem suffixes_eq_nil_iff :
    entry.suffixes = [] ↔ entry ≠ .text "" ∧ ∀ suffix, Names entry suffix → suffix = "" := by
  rw [List.eq_nil_iff_forall_not_mem]
  constructor
  · intro h
    refine ⟨fun hentry => ?_, fun suffix hnames => ?_⟩
    · subst hentry
      exact h "" (mem_suffixes_iff.mpr ⟨.text "", fun _ => rfl⟩)
    · by_contra hne
      exact h suffix (mem_suffixes_iff.mpr ⟨hnames, fun hempty => absurd hempty hne⟩)
  · intro h suffix hmem
    obtain ⟨hnames, hempty⟩ := mem_suffixes_iff.mp hmem
    exact h.1 (hempty (h.2 suffix hnames))

theorem empty_mem_suffixesGiven_iff :
    "" ∈ suffixesGiven value ↔ suffixLookup? value = some (.text "") := by
  rw [suffixesGiven]
  cases suffixLookup? value with
  | none => simp
  | some entry =>
    rw [Option.map_some, Option.getD_some, mem_suffixes_iff, Option.some_inj]
    constructor
    · exact fun h => h.2 rfl
    · intro h
      subst h
      exact ⟨.text "", fun _ => rfl⟩

theorem suffixesGiven_ne_nil (h : ¬Refused value) : suffixesGiven value ≠ [] := by
  rw [suffixesGiven]
  cases hentry : suffixLookup? value with
  | none => simp
  | some entry => exact fun hnone => h (.inr ⟨entry, hentry, hnone⟩)

end Settings

/-! ### Suffixes of loaded settings -/

/-- Every regular file of a directory ends in the empty suffix. -/
theorem Workspace.mem_sourceFiles_of_empty {suffixes : List String} (h : "" ∈ suffixes) :
    file ∈ sourceFiles files directory suffixes ↔ ∃ name ∈ files.names directory,
      file = { directory with names := directory.names ++ [name] } ∧ files.isFile file := by
  rw [mem_sourceFiles]
  refine exists_congr fun name => and_congr_right fun _ => and_iff_right ?_
  exact ⟨"", h, List.nil_suffix⟩

namespace Settings

/-- Settings that load have a class suffix. An empty one is among them only where the empty text
stands alone, and then every regular file of a directory is a source file. Any other entry that
names no suffix but the empty one fails, for want of a suffix unless a number before it is too long
to be written. -/
theorem classSuffixes_of_load (h : Holds read files path root value) :
    (∀ {settings}, load read files path = .ok settings → settings.classSuffixes ≠ [] ∧
      ("" ∈ settings.classSuffixes ↔ suffixLookup? value = some (.text "")) ∧
      ("" ∈ settings.classSuffixes → ∀ files directory file,
        file ∈ Workspace.sourceFiles files directory settings.classSuffixes ↔
          ∃ name ∈ files.names directory,
            file = { directory with names := directory.names ++ [name] } ∧ files.isFile file)) ∧
    ∀ {entry}, suffixLookup? value = some entry → entry ≠ .text "" →
      (∀ suffix, Names entry suffix → suffix = "") →
      load read files path = .error
        (if Setting.beforeSuffixes.any (Setting.isOverlong value) then .numberTooLong
        else .noClassSuffix) := by
  rw [load_of_holds h]
  constructor
  · intro settings hload
    obtain ⟨hnot, rfl⟩ := of_ofValue_eq_ok hload
    exact ⟨suffixesGiven_ne_nil hnot, empty_mem_suffixesGiven_iff,
      fun hempty _ _ _ => Workspace.mem_sourceFiles_of_empty hempty⟩
  · intro entry hentry hne hnames
    have hnone : entry.suffixes = [] := suffixes_eq_nil_iff.mpr ⟨hne, hnames⟩
    split
    · next hlong =>
      obtain ⟨setting, hsetting, hlong⟩ := List.any_eq_true.mp hlong
      exact (Rejects.overlong hsetting hlong).ofValue root
    · next hshort => exact (Rejects.noSuffix (by simpa using hshort) hentry hnone).ofValue root

/-- A sequence in which no item is a text with anything in it is refused, and the empty text is
taken. -/
theorem classSuffixes_of_load_single :
    let root := Path.absolute []
    let files := fun text : String =>
      Files.mk ⟨[([settingsFile], .file (Utf8.encode text.toList))], by simp⟩ [] "/"
    let nameless := "extraction:\n  class_suffixes: [[.js], 1, '']\n"
    let empty := "extraction:\n  class_suffixes: ''\n"
    load reader (files nameless) root = .error .noClassSuffix ∧
      ∃ settings, load reader (files empty) root = .ok settings ∧ "" ∈ settings.classSuffixes := by
  intro root files nameless empty
  let file := Path.absolute [settingsFile]
  have hfile : ∀ text ∈ [nameless, empty], filePath (files text) root = .ok file ∧
      (files text).resolve file.parent = .ok root ∧ (files text).text file = .ok text.toList ∧
      text.toList.all Text.isBlank = false := by decide +kernel
  have hnameless : (reader nameless.toList).toOption.any (fun value =>
      Setting.beforeSuffixes.any (Setting.isOverlong value) = false ∧
        ∃ entry ∈ suffixLookup? value, entry.suffixes = []) = true := by decide +kernel
  have hempty : (reader empty.toList).toOption.any (fun value =>
      (suffixLookup? value).bind Value.text? = some "") = true := by decide +kernel
  have hload : (load reader (files empty) root).isOk = true := by decide +kernel
  clear_value root files nameless empty file
  constructor
  · obtain ⟨hfile, hroot, htext, hblank⟩ := hfile nameless (by simp)
    obtain ⟨value, hholds, hvalue⟩ := exists_holds hfile hroot htext hblank hnameless
    obtain ⟨hshort, entry, hentry, hnone⟩ := of_decide_eq_true hvalue
    obtain ⟨hne, hnames⟩ := suffixes_eq_nil_iff.mp hnone
    have herror := (classSuffixes_of_load hholds).2 hentry hne hnames
    rwa [hshort] at herror
  · obtain ⟨hfile, hroot, htext, hblank⟩ := hfile empty (by simp)
    obtain ⟨value, hholds, hvalue⟩ := exists_holds hfile hroot htext hblank hempty
    obtain ⟨entry, hentry, htext⟩ := Option.bind_eq_some_iff.mp (of_decide_eq_true hvalue)
    rw [text?_eq_some_iff] at htext
    cases hsettings : load reader (files empty) root with
    | error failure => simp [hsettings, Except.isOk, Except.toBool] at hload
    | ok settings =>
      obtain ⟨-, hsuffixes, -⟩ := (classSuffixes_of_load hholds).1 hsettings
      exact ⟨settings, rfl, hsuffixes.mpr (htext ▸ hentry)⟩

/-- The empty text is taken for a class suffix. -/
theorem empty_suffix_of_load :
    let text := "extraction:\n  class_suffixes: ''\n"
    let files : Files := ⟨⟨[([settingsFile], .file (Utf8.encode text.toList))], by decide⟩, [], "/"⟩
    load reader files (.absolute []) =
      .ok { root := .absolute [], classSuffixes := [""] } := by
  decide +kernel

end Settings

end SdkCatalog
