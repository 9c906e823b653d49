import SdkCatalog.Proofs.Workspace

/-! Files listed in another order. An operating system may list a directory in any order; nothing
but the names in a directory tells in which, so the same files are read and found. -/

namespace SdkCatalog

namespace FileTree

variable {tree later : FileTree} {place : Location} {entry : Entry}

theorem entry?_eq_some_iff_mem (hne : place ≠ []) :
    tree.entry? place = some entry ↔ (place, entry) ∈ tree.entries := by
  rw [FileTree.entry?, if_neg hne, Option.map_eq_some_iff]
  constructor
  · rintro ⟨⟨other, found⟩, hfound, rfl⟩
    have hother : other = place := by simpa using List.find?_some hfound
    exact hother ▸ List.mem_of_find?_eq_some hfound
  · intro hmem
    obtain ⟨found, hfound⟩ : ∃ found, tree.entries.find? (·.1 = place) = some found :=
      Option.isSome_iff_exists.mp (List.find?_isSome.mpr ⟨_, hmem, by simp⟩)
    have hplace : found.1 = place := by simpa using List.find?_some hfound
    have hsame : found = (place, entry) :=
      List.inj_on_of_nodup_map tree.distinct (List.mem_of_find?_eq_some hfound) hmem hplace
    exact ⟨found, hfound, by rw [hsame]⟩

theorem entry?_of_perm (h : later.entries.Perm tree.entries) (place : Location) :
    later.entry? place = tree.entry? place := by
  by_cases hne : place = []
  · rw [FileTree.entry?, FileTree.entry?, if_pos hne, if_pos hne]
  · refine Option.ext fun entry => ?_
    rw [entry?_eq_some_iff_mem hne, entry?_eq_some_iff_mem hne, h.mem_iff]

/-- The names below a location are those of the entries listed below it, one by one. -/
theorem forall₂_nameBelow (place : Location) (entries : List (Location × Entry)) :
    List.Forall₂ (fun name entry => entry.1 = place ++ [name])
      ((entries.map (·.1)).filterMap (nameBelow place))
      (entries.filter fun entry => (nameBelow place entry.1).isSome) := by
  induction entries with
  | nil => exact .nil
  | cons first rest ih =>
    rw [List.map_cons, List.filterMap_cons, List.filter_cons]
    cases hname : nameBelow place first.1 with
    | none => exact ih
    | some name => exact .cons (nameBelow_eq_some_iff.mp hname) ih

theorem filterMap_nameBelow {names : List String} {entries : List (Location × Entry)}
    (h : List.Forall₂ (fun name entry => entry.1 = place ++ [name]) names entries) :
    (entries.map (·.1)).filterMap (nameBelow place) = names := by
  induction h with
  | nil => rfl
  | cons hname _ ih =>
    rw [List.map_cons, List.filterMap_cons, nameBelow_eq_some_iff.mpr hname, ih]

/-- Where names lead depends on what stands where, and not on the order of the entries. -/
theorem follow_congr (h : ∀ place, later.entry? place = tree.entry? place) (last : Bool)
    (links : Nat) (here : Location) (names : List String) :
    later.follow last links here names = tree.follow last links here names := by
  match names with
  | [] => rw [follow_nil, follow_nil]
  | name :: rest =>
    have hhere : later.hasDirectory here = tree.hasDirectory here := by
      rw [hasDirectory, hasDirectory, h]
    rw [follow_cons, follow_cons, h, hhere, follow_congr h last links here.dropLast rest,
      follow_congr h last links (here ++ [name]) rest]
    match links with
    | 0 => rfl
    | links + 1 => simp only [follow_congr h last links]
termination_by (links, names.length)

end FileTree

namespace Files

open FileTree

variable {files later : Files} {path : Path}

/-- Later files are the same but for the order in which they are listed. -/
structure Relisted (files later : Files) : Prop where
  workingDirectory : later.workingDirectory = files.workingDirectory
  home : later.home = files.home
  entry : ∀ place, later.tree.entry? place = files.tree.entry? place

namespace Relisted

theorem find (h : files.Relisted later) (path : Path) : later.find path = files.find path := by
  rw [Files.find, Files.find, FileTree.find, FileTree.find, h.workingDirectory,
    follow_congr h.entry]

theorem isFile (h : files.Relisted later) (path : Path) :
    later.isFile path = files.isFile path := by
  rw [Files.isFile, Files.isFile, Files.entry?, Files.entry?, h.find]

theorem unmarkedText (h : files.Relisted later) (path : Path) :
    later.unmarkedText path = files.unmarkedText path := by
  rw [Files.unmarkedText, Files.unmarkedText, Files.bytes, Files.bytes, h.find]

theorem names_perm (h : files.Relisted later) (path : Path) :
    (later.names path).Perm (files.names path) := by
  refine (List.perm_ext_iff_of_nodup (later.nodup_names path) (files.nodup_names path)).mpr ?_
  intro name
  rw [names, names, h.find]
  split
  · simp only [mem_namesIn, h.entry]
  · exact Iff.rfl

/-- The source files of a directory stand in the order of their names, however it is listed. -/
theorem sourceFiles (h : files.Relisted later) (directory : Path) (suffixes : List String) :
    Workspace.sourceFiles later directory suffixes =
      Workspace.sourceFiles files directory suffixes := by
  refine Workspace.sourceFiles_congr fun file => ?_
  simp only [Workspace.mem_sourceFiles, (h.names_perm directory).mem_iff, h.isFile]

theorem put (h : files.Relisted later) (place : Location) (entry : Entry) :
    (files.put place entry).Relisted (later.put place entry) where
  workingDirectory := h.workingDirectory
  home := h.home
  entry other := by
    simp only [Files.put]
    by_cases hother : other = place
    · by_cases hroot : place = []
      · rw [hother, hroot]
        rfl
      · rw [hother, entry?_put_same hroot, entry?_put_same hroot]
    · rw [entry?_put_other hother, entry?_put_other hother, h.entry]

theorem append (h : files.Relisted later) (place : Location) (content : List UInt8) :
    (files.append place content).Relisted (later.append place content) := by
  rw [Files.append, Files.append, contentAt, contentAt, h.entry]
  exact h.put _ _

end Relisted

theorem relisted_of_perm (hdirectory : later.workingDirectory = files.workingDirectory)
    (hhome : later.home = files.home) (h : later.tree.entries.Perm files.tree.entries) :
    files.Relisted later :=
  ⟨hdirectory, hhome, entry?_of_perm h⟩

/-- Every order of the names in a directory is the one in which some files like these list it. -/
theorem exists_relisted (files : Files) (directory : Path) {order : List String}
    (h : order.Perm (files.names directory)) :
    ∃ later, files.Relisted later ∧ later.names directory = order := by
  by_cases hdirectory : files.isDirectory directory = true
  swap
  · rw [names_of_not_directory hdirectory] at h
    exact ⟨files, ⟨rfl, rfl, fun _ => rfl⟩, by rw [names_of_not_directory hdirectory, h.eq_nil]⟩
  obtain ⟨place, hfound⟩ := isDirectory_iff.mp hdirectory
  rw [names_of_directory hfound, namesIn_eq] at h
  obtain ⟨below, hbelow, hperm⟩ :=
    List.perm_comp_forall₂ h (forall₂_nameBelow place files.tree.entries)
  let others := files.tree.entries.filter fun entry => !(nameBelow place entry.1).isSome
  have hentries : (below ++ others).Perm files.tree.entries :=
    (hperm.append_right others).trans (List.filter_append_perm _ _)
  have hdistinct : ((below ++ others).map (·.1)).Nodup :=
    (hentries.map (·.1)).nodup_iff.mpr files.tree.distinct
  have hothers : (others.map (·.1)).filterMap (nameBelow place) = [] := by
    rw [List.filterMap_eq_nil_iff]
    intro other hother
    obtain ⟨entry, hentry, rfl⟩ := List.mem_map.mp hother
    simpa using (List.mem_filter.mp hentry).2
  have hrelisted : files.Relisted { files with tree := ⟨below ++ others, hdistinct⟩ } :=
    relisted_of_perm rfl rfl hentries
  refine ⟨_, hrelisted, ?_⟩
  rw [names_of_directory ((hrelisted.find directory).trans hfound), namesIn_eq, List.map_append,
    List.filterMap_append, filterMap_nameBelow hbelow, hothers, List.append_nil]

end Files

end SdkCatalog
