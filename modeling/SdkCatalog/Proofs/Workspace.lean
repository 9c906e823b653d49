import SdkCatalog.Proofs.Session
import SdkCatalog.Proofs.Text.Lines
import SdkCatalog.Proofs.Text.Utf8
import SdkCatalog.Workspace

/-! Reading the sources of a workspace: what a read answers, and which files a directory gives. -/

namespace SdkCatalog

open Files Session

variable {before after : Session} {files later : Files} {places : List Location} {path : Path}

/-! ### The text of a source -/

namespace Workspace

/-- The text that a source has for the program: its text without a byte-order mark, or nothing if
it cannot be read. -/
def sourceText (files : Files) (path : Path) : String :=
  if files.isFile path then
    match files.unmarkedText path with
    | .ok cs => String.ofList cs
    | .error _ => ""
  else ""

theorem isFile_of_unmarkedText {cs : List Char} (h : files.unmarkedText path = .ok cs) :
    files.isFile path = true := by
  obtain ⟨content, hbytes, -⟩ := bind_eq_ok_iff.mp h
  obtain ⟨place, hfound⟩ := bytes_eq_ok_iff.mp (mapError_eq_ok_iff.mp hbytes)
  exact isFile_iff.mpr ⟨place, content, hfound⟩

theorem sourceText_of_ok {cs : List Char} (h : files.unmarkedText path = .ok cs) :
    sourceText files path = String.ofList cs := by
  rw [sourceText, if_pos (isFile_of_unmarkedText h), h]

theorem sourceText_of_error {fault : TextFault} (h : files.unmarkedText path = .error fault) :
    sourceText files path = "" := by
  rw [sourceText, h, ite_self]

/-- Reading a source answers its text, and at most reports. -/
theorem byReports_readSource (before : Session) (path : Path) :
    ∃ after, (readSource path).run.run before = (.ok (sourceText before.files path), after) ∧
      ByReports before after := by
  rw [readSource, Action.run_bind_of_ok (Action.run_ask _), sourceText]
  cases before.files.isFile path with
  | false => exact ⟨_, rfl, byReports_report _ _⟩
  | true =>
    rw [if_pos rfl, if_pos rfl, Action.run_bind_of_ok (Action.run_ask _)]
    cases before.files.unmarkedText path with
    | ok cs => exact ⟨_, rfl, .refl _⟩
    | error fault => exact ⟨_, rfl, byReports_report _ _⟩

theorem run_readSource (path : Path) (hlogs : before.LogsThere) :
    ∃ after, (readSource path).run.run before = (.ok (sourceText before.files path), after) ∧
      Reported before after := by
  obtain ⟨after, hrun, hreports⟩ := byReports_readSource before path
  exact ⟨after, hrun, hreports.reported hlogs⟩

theorem run_readSource_ok {text : String} (hlogs : before.LogsThere)
    (h : (readSource path).run.run before = (.ok text, after)) :
    text = sourceText before.files path := by
  obtain ⟨_, hrun, -⟩ := run_readSource path hlogs
  rw [hrun] at h
  injection h with h
  injection h with h
  exact h.symm

theorem onlyReports_readSource (path : Path) : Action.OnlyReports (readSource path) := by
  intro before after answer hlogs h
  obtain ⟨_, hrun, hreported⟩ := run_readSource path hlogs
  rw [hrun] at h
  injection h with _ h
  exact h ▸ hreported

/-- A file that holds the bytes of a text, with neither a mark in front nor returns in it, has that
text. -/
theorem sourceText_of_bytes {cs : List Char} (hbytes : files.bytes path = .ok (Utf8.encode cs))
    (hmark : (Utf8.encode cs).head? ≠ some 0xEF) (hreturn : '\r' ∉ cs) :
    sourceText files path = String.ofList cs := by
  have hdrop : Utf8.dropMark (Utf8.encode cs) = Utf8.encode cs := by
    rw [Utf8.dropMark.eq_def]
    split
    · next rest hrest => simp [hrest] at hmark
    · rfl
  have hpart : ¬(Utf8.encode cs = [0xEF] ∨ Utf8.encode cs = [0xEF, 0xBB]) := by
    rintro (h | h) <;> simp [h] at hmark
  have htext : files.unmarkedText path = .ok cs := by
    rw [unmarkedText, hbytes]
    simp only [Except.mapError, bind, Except.bind, if_neg hpart, hdrop, textOf,
      Utf8.decode_encode, Except.map, Text.unifyBreaks_of_not_mem hreturn]
  exact sourceText_of_ok htext

/-- Reading a source never fails, whatever stands at its path. -/
theorem failsOnly_readSource {allowed : Failure → Prop} (path : Path) :
    Action.FailsOnly allowed (readSource path) :=
  Action.failsOnly_of_answers fun before =>
    let ⟨after, hrun, _⟩ := byReports_readSource before path
    ⟨_, after, hrun⟩

end Workspace

/-- The text of a source depends on the regular file at the end of its path only. -/
theorem Workspace.sourceText_congr
    (h : ∀ content, later.entry? path = some (.file content) ↔
      files.entry? path = some (.file content)) :
    sourceText later path = sourceText files path := by
  simp only [entry?_eq_some_iff, ← bytes_eq_ok_iff] at h
  have hfile : ∀ files : Files, files.isFile path = true ↔
      ∃ content, files.bytes path = .ok content := by
    intro files
    simp only [isFile_iff, bytes_eq_ok_iff]
    exact exists_comm
  rw [sourceText, sourceText, Bool.eq_iff_iff.mpr ((hfile later).trans
    ((exists_congr h).trans (hfile files).symm))]
  split
  · next hthere =>
    obtain ⟨content, hcontent⟩ := (hfile files).mp hthere
    rw [unmarkedText, unmarkedText, hcontent, (h content).mpr hcontent]
  · rfl

theorem Files.SameBut.sourceText (h : SameBut places files later)
    (havoids : files.Avoids places path) :
    Workspace.sourceText later path = Workspace.sourceText files path := by
  refine Workspace.sourceText_congr fun content => ?_
  simp only [entry?_eq_some_iff]
  constructor
  · rintro ⟨place, hfound⟩
    exact ⟨place, h.symm.find_file_of_avoids (h.avoids havoids) hfound⟩
  · rintro ⟨place, hfound⟩
    exact ⟨place, h.find_file_of_avoids havoids hfound⟩

/-! ### The source files of a directory -/

/-- The names in a directory are those of the locations listed directly below it. -/
theorem FileTree.mem_namesIn {tree : FileTree} {place : Location} {name : String} :
    name ∈ tree.namesIn place ↔ ∃ entry, tree.entry? (place ++ [name]) = some entry := by
  rw [exists_entry?_iff (by simp), namesIn_eq, List.mem_filterMap]
  simp only [nameBelow_eq_some_iff, exists_eq_right]

theorem FileTree.nodup_namesIn (tree : FileTree) (place : Location) :
    (tree.namesIn place).Nodup := by
  rw [namesIn_eq, List.Nodup, List.pairwise_filterMap]
  refine tree.distinct.imp ?_
  rintro other other' hne name hname name' hname' rfl
  exact hne ((nameBelow_eq_some_iff.mp hname).trans (nameBelow_eq_some_iff.mp hname').symm)

theorem Files.nodup_names (files : Files) (path : Path) : (files.names path).Nodup := by
  rw [names]
  split
  · exact files.tree.nodup_namesIn _
  · exact List.nodup_nil

namespace Workspace

/-- The source files of a directory are its regular files whose names end in a suffix. -/
theorem mem_sourceFiles {directory file : Path} {suffixes : List String} :
    file ∈ sourceFiles files directory suffixes ↔
      ∃ name ∈ files.names directory, (∃ suffix ∈ suffixes, suffix.toList <:+ name.toList) ∧
        file = { directory with names := directory.names ++ [name] } ∧ files.isFile file := by
  simp only [sourceFiles, List.mem_filter, List.mem_map, List.mem_mergeSort, List.any_eq_true,
    Text.endsWith, List.isSuffixOf_iff_suffix]
  constructor
  · rintro ⟨⟨name, ⟨hname, hsuffix⟩, rfl⟩, hfile⟩
    exact ⟨name, hname, hsuffix, rfl, hfile⟩
  · rintro ⟨name, hname, hsuffix, rfl, hfile⟩
    exact ⟨⟨name, ⟨hname, hsuffix⟩, rfl⟩, hfile⟩

theorem pairwise_mergeSort (names : List String) :
    (names.mergeSort fun a b => a ≤ b).Pairwise (· ≤ ·) := by
  have hsorted : (names.mergeSort fun a b => a ≤ b).Pairwise fun a b => decide (a ≤ b) = true := by
    refine List.pairwise_mergeSort (fun a b c hab hbc => ?_) (fun a b => ?_) names
    · rw [decide_eq_true_eq] at hab hbc ⊢
      exact String.le_trans hab hbc
    · rw [Bool.or_eq_true, decide_eq_true_eq, decide_eq_true_eq]
      exact String.le_total a b
  exact hsorted.imp of_decide_eq_true

theorem pairwise_sourceFiles (files : Files) (directory : Path) (suffixes : List String) :
    (sourceFiles files directory suffixes).Pairwise fun a b => a.name < b.name := by
  have hname : ∀ name, Path.name { directory with names := directory.names ++ [name] } = name :=
    fun name => by simp [Path.name]
  rw [sourceFiles]
  refine List.Pairwise.filter _ ?_
  rw [List.pairwise_map]
  simp only [hname]
  generalize hnames : (files.names directory).filter _ = names
  have hnodup : (names.mergeSort fun a b => a ≤ b).Nodup :=
    (List.mergeSort_perm _ _).nodup_iff.mpr (hnames ▸ (files.nodup_names directory).filter _)
  exact ((pairwise_mergeSort names).and hnodup).imp fun ⟨hle, hne⟩ => Std.lt_of_le_of_ne hle hne

theorem sourceFiles_of_perm {directory : Path} {suffixes names : List String}
    (hsorted : names.Pairwise (· ≤ ·))
    (hperm : names.Perm ((files.names directory).filter fun name =>
      suffixes.any fun suffix => Text.endsWith suffix.toList name.toList)) :
    sourceFiles files directory suffixes =
      (names.map fun name => { directory with names := directory.names ++ [name] }).filter
        files.isFile := by
  have hsort : ((files.names directory).filter fun name => suffixes.any fun suffix =>
      Text.endsWith suffix.toList name.toList).mergeSort (fun a b => a ≤ b) = names := by
    exact List.Perm.eq_of_pairwise (fun a b _ _ => String.le_antisymm) (pairwise_mergeSort _)
      hsorted ((List.mergeSort_perm _ _).trans hperm.symm)
  rw [sourceFiles, hsort]

end Workspace

theorem Workspace.sourceFiles_congr {directory : Path} {suffixes : List String}
    (h : ∀ file, file ∈ sourceFiles later directory suffixes ↔
      file ∈ sourceFiles files directory suffixes) :
    sourceFiles later directory suffixes = sourceFiles files directory suffixes := by
  have hnodup : ∀ files, (sourceFiles files directory suffixes).Nodup := by
    intro files
    refine (pairwise_sourceFiles files directory suffixes).imp ?_
    rintro a b hlt rfl
    exact String.lt_irrefl _ hlt
  refine List.Perm.eq_of_pairwise (fun a b _ _ hab hba => absurd hba (String.lt_asymm hab))
    (pairwise_sourceFiles later directory suffixes)
    (pairwise_sourceFiles files directory suffixes) ?_
  exact (List.perm_ext_iff_of_nodup (hnodup later) (hnodup files)).mpr h

theorem Files.SameBut.sourceFiles (h : SameBut places files later) (directory : Path)
    (suffixes : List String) :
    Workspace.sourceFiles later directory suffixes =
      Workspace.sourceFiles files directory suffixes := by
  have hfile : later.isFile = files.isFile := funext h.isFile
  rw [Workspace.sourceFiles, Workspace.sourceFiles, h.names, hfile]

end SdkCatalog
