import SdkCatalog.Proofs.Files.Furnished
import SdkCatalog.Proofs.Settings
import SdkCatalog.Proofs.Workspace
import SdkCatalog.Proofs.Workspace.Root

/-! A workspace in which a directory is made and furnished: it has the same root, the same settings
and the same sources, as long as none of them is among what is made. -/

namespace SdkCatalog.Files

open FileTree

variable {read : Yaml.Reader} {files later : Files} {path : Path} {place : Location}
  {names : List String}

/-! ### Paths -/

namespace Furnished

/-- A path that spells a location which is neither on the way nor written to leads to the same. -/
theorem path_entry?_eq (hfiles : files.Plain) (h : Furnished place names files later)
    (hdots : ".." ∉ path.names) (habove : ¬files.locate path <+: place)
    (hother : ∀ name ∈ names, files.locate path ≠ place ++ [name]) :
    later.entry? path = files.entry? path := by
  refine Option.ext fun entry => ?_
  rw [h.plain.entry?_iff hdots, hfiles.entry?_iff hdots, h.locate_eq, h.entry?_eq habove hother]

/-- A name that is not made is looked up in any directory as before. -/
theorem child_entry?_eq {name : String} (hfiles : files.Plain)
    (h : Furnished place names files later) (hdots : ".." ∉ path.names) (hname : Path.Single name)
    (hplace : name ∉ place) (hnames : name ∉ names) :
    later.entry? (path.child name) = files.entry? (path.child name) := by
  refine h.path_entry?_eq hfiles (hname.not_dots_child hdots) ?_ ?_
  · rw [locate_child hname]
    exact fun habove => hplace (habove.subset (by simp))
  · rw [locate_child hname]
    intro other hother heq
    have := (List.append_inj' heq rfl).2
    simp only [List.cons.injEq, and_true] at this
    exact hnames (this ▸ hother)

theorem path_entry?_file_iff {content : List UInt8} (hfiles : files.Plain)
    (h : Furnished place names files later) (hdots : ".." ∉ path.names)
    (hother : ∀ name ∈ names, files.locate path ≠ place ++ [name]) :
    later.entry? path = some (.file content) ↔ files.entry? path = some (.file content) := by
  rw [h.plain.entry?_iff hdots, hfiles.entry?_iff hdots, h.locate_eq, h.entry?_file_iff hother]

theorem avoids {places : List Location} (hfiles : files.Plain)
    (h : Furnished place names files later) (hdots : ".." ∉ path.names)
    (hthere : ∀ place ∈ places, ∃ content, files.tree.entry? place = some (.file content))
    (havoids : files.Avoids places path) : later.Avoids places path := by
  intro other entry hfound hmem
  obtain ⟨hnull, hother, -⟩ := (h.plain.find_entry_iff hdots).mp hfound
  obtain ⟨content, hcontent⟩ := hthere other hmem
  rw [h.locate_eq] at hother
  exact havoids other _ ((hfiles.find_entry_iff hdots).mpr ⟨hnull, hother, hcontent⟩) hmem

end Furnished

/-! ### The root -/

/-- No root is found inside a regular file. -/
theorem Plain.rootAbove?_parent {start : Path} {marker : String} (h : files.Plain)
    (hmarker : Path.Single marker) (hdots : ".." ∉ start.names)
    (hfile : files.isFile start = true) :
    Workspace.rootAbove? files start.parent marker = Workspace.rootAbove? files start marker := by
  obtain ⟨other, content, hfound⟩ := isFile_iff.mp hfile
  obtain ⟨-, rfl, hentry⟩ := (h.find_entry_iff hdots).mp hfound
  have hnames : start.names ≠ [] := by
    intro hnil
    rw [locate, hnil, List.append_nil, h.directory_start] at hentry
    simp at hentry
  have hnone : files.present (start.child marker) = false := by
    cases hpresent : files.present (start.child marker) with
    | false => rfl
    | true =>
      obtain ⟨entry, hchild⟩ := Option.isSome_iff_exists.mp hpresent
      have hstands := ((h.entry?_iff (hmarker.not_dots_child hdots)).mp hchild).2
      rw [locate_child hmarker] at hstands
      simp [(h.tree.grounded _ _ _ hstands).1] at hentry
  rw [Workspace.rootAbove?_eq files start, hnone, if_neg (by simp),
    if_neg (mt Path.parent_eq_self_iff.mp hnames)]

/-- A workspace keeps its root, unless the marker is among what is made. -/
theorem Furnished.root {marker : String} (hfiles : files.Plain)
    (h : Furnished place names files later) (hmarker : Path.Single marker)
    (hplace : marker ∉ place) (hnames : marker ∉ names) :
    Workspace.root later path marker = Workspace.root files path marker := by
  have hexpand : later.expandHome path = files.expandHome path := by
    rw [expandHome, expandHome, h.home]
  rw [Workspace.root, Workspace.root, hexpand]
  split
  · rfl
  · next expanded _ =>
    rw [h.plain.resolve, hfiles.resolve, h.workingDirectory]
    split
    · simp only [Except.mapError, bind, Except.bind]
    · generalize hresolved : walk (start files.workingDirectory expanded) expanded.names = names'
      have hdots : ".." ∉ (Path.absolute names').names :=
        hresolved ▸ not_dots_walk (hfiles.tree.not_dots (hfiles.directory_start expanded))
      have hstart : ∀ files : Files, files.Plain →
          Workspace.rootAbove? files (if files.isFile (.absolute names') then
            (Path.absolute names').parent else .absolute names') marker =
          Workspace.rootAbove? files (.absolute names') marker := by
        intro files hfiles
        split
        · next hfile => exact hfiles.rootAbove?_parent hmarker hdots hfile
        · rfl
      have hsame : Workspace.rootAbove? later (.absolute names') marker =
          Workspace.rootAbove? files (.absolute names') marker := by
        refine List.find?_congr fun above habove => ?_
        have hnot : ".." ∉ above.names :=
          fun hmem => hdots ((Path.mem_upward habove).2.subset hmem)
        rw [present, present, h.child_entry?_eq hfiles hnot hmarker hplace hnames]
      simp only [Except.mapError, bind, Except.bind, hstart later h.plain, hstart files hfiles,
        hsame]

/-- The root of a workspace is a directory, spelled from the root of the tree without dots. -/
theorem Plain.of_root_eq_ok {marker : String} {found : Path} (h : files.Plain)
    (hmarker : Path.Single marker) (hroot : Workspace.root files path marker = .ok found) :
    ∃ names, found = .absolute names ∧ ".." ∉ names ∧ (Path.absolute names).hasNull = false ∧
      files.tree.entry? names = some .directory := by
  obtain ⟨expanded, resolved, hresolved, ⟨hanchor, hnames⟩, hpresent⟩ :=
    Workspace.of_root_eq_ok hroot
  rw [h.resolve] at hresolved
  split at hresolved
  · simp at hresolved
  · injection hresolved with hresolved
    subst hresolved
    have hdots : ".." ∉ found.names := fun hmem =>
      not_dots_walk (h.tree.not_dots (h.directory_start expanded)) (hnames.subset hmem)
    obtain ⟨anchor, names⟩ := found
    obtain rfl : anchor = .root := hanchor
    obtain ⟨entry, hentry⟩ := Option.isSome_iff_exists.mp hpresent
    obtain ⟨hnull, hstands⟩ := (h.entry?_iff (hmarker.not_dots_child hdots)).mp hentry
    rw [Path.hasNull_child hmarker, Bool.or_eq_false_iff] at hnull
    rw [locate_child hmarker] at hstands
    exact ⟨names, rfl, hdots, hnull.1, (h.tree.grounded _ _ _ hstands).1⟩

/-! ### The settings -/

theorem Plain.filePath_absolute {root : Location} (h : files.Plain) (hdots : ".." ∉ root)
    (hnull : (Path.absolute root).hasNull = false)
    (hroot : files.tree.entry? root = some .directory) :
    Settings.filePath files (.absolute root) = .ok ((Path.absolute root).child settingsFile) := by
  have hdirectory : files.isDirectory (.absolute root) = true :=
    isDirectory_iff.mpr ⟨root, (h.find_entry_iff hdots).mpr ⟨hnull, rfl, hroot⟩⟩
  have hchild : ((Path.absolute root).child settingsFile).hasNull = false := by
    rw [Path.hasNull_child Settings.single_settingsFile, hnull]
    decide
  have hchildDots : ".." ∉ ((Path.absolute root).child settingsFile).names :=
    Settings.single_settingsFile.not_dots_child hdots
  have hexpand : files.expandHome (.absolute root) = some (.absolute root) := rfl
  rw [Settings.filePath, hexpand]
  simp only [if_pos hdirectory, h.resolve, hchild, walk_of_not_dots hchildDots]
  rw [Settings.single_settingsFile.child]
  rfl

theorem Furnished.load {root : Location} {settings : Settings} (hfiles : files.Plain)
    (h : Furnished place names files later) (hdots : ".." ∉ root)
    (hnull : (Path.absolute root).hasNull = false)
    (hroot : files.tree.entry? root = some .directory) (hplace : settingsFile ∉ place)
    (hnames : settingsFile ∉ names)
    (hload : Settings.load read files (.absolute root) = .ok settings) :
    Settings.load read later (.absolute root) = .ok settings := by
  obtain ⟨file, parent, hfile, hparent, hsettings⟩ := Settings.load_eq_ok_iff.mp hload
  rw [hfiles.filePath_absolute hdots hnull hroot] at hfile
  injection hfile with hfile
  subst hfile
  refine Settings.load_eq_ok_iff.mpr
    ⟨_, parent, h.plain.filePath_absolute hdots hnull (h.directory hroot), ?_, ?_⟩
  · rw [← hparent, h.plain.resolve, hfiles.resolve, h.workingDirectory]
  · have hentry : later.entry? ((Path.absolute root).child settingsFile) =
        files.entry? ((Path.absolute root).child settingsFile) :=
      h.child_entry?_eq hfiles hdots Settings.single_settingsFile hplace hnames
    have hpresent : later.present ((Path.absolute root).child settingsFile) =
        files.present ((Path.absolute root).child settingsFile) := by
      rw [present, present, hentry]
    rw [hpresent]
    refine hsettings.imp (And.imp_right ?_) id
    rintro ⟨cs, htext, hcs⟩
    obtain ⟨content, hbytes, hcontent⟩ := text_eq_ok_iff.mp htext
    refine ⟨cs, text_eq_ok_iff.mpr ⟨content, ?_, hcontent⟩, hcs⟩
    rw [bytes_eq_ok_iff, ← entry?_eq_some_iff] at hbytes ⊢
    rw [hentry, hbytes]

/-! ### The sources -/

theorem Furnished.sourceText (hfiles : files.Plain) (h : Furnished place names files later)
    (hdots : ".." ∉ path.names) (hother : ∀ name ∈ names, files.locate path ≠ place ++ [name]) :
    Workspace.sourceText later path = Workspace.sourceText files path :=
  Workspace.sourceText_congr fun _ => h.path_entry?_file_iff hfiles hdots hother

/-- The source files of a directory are those below the location that it spells. -/
theorem Plain.mem_sourceFiles {directory file : Path} {suffixes : List String} (h : files.Plain)
    (hdots : ".." ∉ directory.names) :
    file ∈ Workspace.sourceFiles files directory suffixes ↔
      ∃ name, name ≠ ".." ∧ (∃ suffix ∈ suffixes, suffix.toList <:+ name.toList) ∧
        file = { directory with names := directory.names ++ [name] } ∧ files.isFile file := by
  rw [Workspace.mem_sourceFiles]
  refine exists_congr fun name => and_congr_left fun ⟨_, hfile, hthere⟩ => ?_
  constructor
  · intro hname
    rw [Files.names] at hname
    split at hname
    · obtain ⟨entry, hentry⟩ := FileTree.mem_namesIn.mp hname
      exact (h.tree.grounded _ _ _ hentry).2
    · simp at hname
  · intro hname
    obtain ⟨other, content, hfound⟩ := isFile_iff.mp hthere
    subst hfile
    obtain ⟨hnull, rfl, hentry⟩ := (h.find_entry_iff (by simp [hdots, hname.symm])).mp hfound
    have hbelow : files.locate { directory with names := directory.names ++ [name] } =
        files.locate directory ++ [name] := (List.append_assoc _ _ _).symm
    rw [hbelow] at hentry
    have hdirectory : files.find directory = .ok (.entry (files.locate directory) .directory) :=
      (h.find_entry_iff hdots).mpr ⟨by
        rw [Path.hasNull, List.any_append, Bool.or_eq_false_iff] at hnull
        exact hnull.1, rfl, (h.tree.grounded _ _ _ hentry).1⟩
    rw [names_of_directory hdirectory]
    exact FileTree.mem_namesIn.mpr ⟨_, hentry⟩

/-- A source file of a directory is not written to, if no name that is written there ends in one of
the suffixes. -/
theorem locate_sourceFile_ne {directory : Path} {suffixes : List String} {name : String}
    (hmembers : files.locate directory = place →
      ∀ name ∈ names, ∀ suffix ∈ suffixes, ¬suffix.toList <:+ name.toList)
    (hends : ∃ suffix ∈ suffixes, suffix.toList <:+ name.toList) :
    ∀ other ∈ names,
      files.locate { directory with names := directory.names ++ [name] } ≠ place ++ [other] := by
  intro other hmem heq
  rw [locate, ← List.append_assoc] at heq
  obtain ⟨hplace, hnames⟩ := List.append_inj' heq rfl
  injection hnames with hnames
  obtain ⟨suffix, hsuffix, hends⟩ := hends
  exact hmembers hplace other hmem suffix hsuffix (hnames ▸ hends)

theorem Furnished.sourceFiles {directory : Path} {suffixes : List String} (hfiles : files.Plain)
    (h : Furnished place names files later) (hdots : ".." ∉ directory.names)
    (hmembers : files.locate directory = place →
      ∀ name ∈ names, ∀ suffix ∈ suffixes, ¬suffix.toList <:+ name.toList) :
    Workspace.sourceFiles later directory suffixes =
      Workspace.sourceFiles files directory suffixes := by
  refine Workspace.sourceFiles_congr fun file => ?_
  rw [h.plain.mem_sourceFiles hdots, hfiles.mem_sourceFiles hdots]
  refine exists_congr fun name => and_congr_right fun hname => and_congr_right
    fun hends => and_congr_right fun hfile => ?_
  subst hfile
  have hfileDots : ".." ∉ directory.names ++ [name] := by simp [hdots, hname.symm]
  simp only [isFile_iff, exists_comm (α := Location), ← entry?_eq_some_iff,
    h.path_entry?_file_iff hfiles hfileDots (locate_sourceFile_ne hmembers hends)]

end SdkCatalog.Files
