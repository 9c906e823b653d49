import SdkCatalog.Proofs.Files.Update

/-! Files whose contents differ at some locations only, as they do once a log file is written to:
which questions about paths have the same answers. -/

namespace SdkCatalog

namespace FileTree

variable {tree : FileTree} {place : Location}

/-- What is found, whatever the content of a regular file. -/
def Found.erase : Found → Found
  | .entry place (.file _) => .entry place (.file [])
  | found => found

/-- Where two findings are told apart by a content only, they are one or both a regular file. -/
theorem Found.eq_or_file_of_erase_eq {found other : Found} (h : other.erase = found.erase) :
    other = found ∨ ∃ place content new,
      found = .entry place (.file content) ∧ other = .entry place (.file new) := by
  cases found with
  | vacant =>
    cases other with
    | vacant => exact .inl h
    | entry _ entry => cases entry <;> simp [Found.erase] at h
  | entry place entry =>
    cases other with
    | vacant => cases entry <;> simp [Found.erase] at h
    | entry _ old => cases entry <;> cases old <;> simp_all [Found.erase]

/-- A later tree holds the same as a tree but for the contents of the regular files at some
locations. -/
structure SameBut (places : List Location) (tree later : FileTree) : Prop where
  other : ∀ place ∉ places, later.entry? place = tree.entry? place
  before : ∀ place ∈ places, ∃ content, tree.entry? place = some (.file content)
  after : ∀ place ∈ places, ∃ content, later.entry? place = some (.file content)
  locations : later.entries.map (·.1) = tree.entries.map (·.1)

namespace SameBut

variable {places : List Location} {later : FileTree}

theorem refl (h : ∀ place ∈ places, ∃ content, tree.entry? place = some (.file content)) :
    SameBut places tree tree :=
  ⟨fun _ _ => rfl, h, h, rfl⟩

theorem symm (h : SameBut places tree later) : SameBut places later tree :=
  ⟨fun place hplace => (h.other place hplace).symm, h.after, h.before, h.locations.symm⟩

theorem trans {last : FileTree} (h : SameBut places tree later)
    (hlast : SameBut places later last) : SameBut places tree last :=
  ⟨fun place hplace => (hlast.other place hplace).trans (h.other place hplace), h.before,
    hlast.after, hlast.locations.trans h.locations⟩

theorem put {content : List UInt8} (h : SameBut places tree later) (hplace : place ∈ places) :
    SameBut places tree (later.put place (.file content)) := by
  obtain ⟨old, hold⟩ := h.after place hplace
  have hopen : later.Open place := .inr ⟨old, hold⟩
  refine ⟨fun other hother => ?_, h.before, fun other hother => ?_, ?_⟩
  · have hne : other ≠ place := by
      rintro rfl
      exact hother hplace
    rw [entry?_put_other hne, h.other other hother]
  · by_cases hne : other = place
    · subst hne
      exact ⟨content, entry?_put_same hopen.ne_nil⟩
    · rw [entry?_put_other hne]
      exact h.after other hother
  · rw [← h.locations]
    exact map_fst_putEntry ((exists_entry?_iff hopen.ne_nil).mp ⟨_, hold⟩)

theorem namesIn (h : SameBut places tree later) (place : Location) :
    later.namesIn place = tree.namesIn place := by
  rw [namesIn_eq, namesIn_eq, h.locations]

theorem entry?_of_not_file (h : SameBut places tree later)
    (hother : ∀ content, tree.entry? place ≠ some (.file content)) :
    later.entry? place = tree.entry? place :=
  h.other place fun hplace => by
    obtain ⟨content, hcontent⟩ := h.before place hplace
    exact hother content hcontent

theorem entry?_file {content : List UInt8} (h : SameBut places tree later)
    (hfile : tree.entry? place = some (.file content)) :
    ∃ new, later.entry? place = some (.file new) := by
  by_cases hplace : place ∈ places
  · exact h.after place hplace
  · exact ⟨content, (h.other place hplace).trans hfile⟩

theorem hasDirectory (h : SameBut places tree later) (place : Location) :
    later.hasDirectory place = tree.hasDirectory place := by
  rw [Bool.eq_iff_iff, hasDirectory_iff, hasDirectory_iff]
  constructor
  · intro hdirectory
    rw [h.symm.entry?_of_not_file (by simp [hdirectory]), hdirectory]
  · intro hdirectory
    rw [h.entry?_of_not_file (by simp [hdirectory]), hdirectory]

/-- A path leads to the same, whatever the content of a regular file at its end. -/
theorem follow (h : SameBut places tree later) (last : Bool) (links : Nat) (here : Location)
    (names : List String) :
    (later.follow last links here names).map Found.erase =
      (tree.follow last links here names).map Found.erase := by
  -- What stands at a place is of the same kind in both trees, so both walks take the same branch.
  match names with
  | [] => rw [follow_nil, follow_nil]
  | name :: rest =>
    by_cases hdots : name = ".."
    · subst hdots
      rw [follow_dots, follow_dots]
      exact h.follow _ _ _ _
    · cases hentry : tree.entry? (here ++ [name]) with
      | none =>
        have hlater := (h.entry?_of_not_file (by simp [hentry])).trans hentry
        rw [follow_none hdots hentry, follow_none hdots hlater, h.hasDirectory]
      | some entry =>
        cases entry with
        | file content =>
          obtain ⟨new, hlater⟩ := h.entry?_file hentry
          rw [follow_file hdots hentry, follow_file hdots hlater]
          split <;> rfl
        | directory =>
          have hlater := (h.entry?_of_not_file (by simp [hentry])).trans hentry
          rw [follow_directory hdots hentry, follow_directory hdots hlater]
          exact h.follow _ _ _ _
        | link target =>
          have hlater := (h.entry?_of_not_file (by simp [hentry])).trans hentry
          cases hlast : rest.isEmpty && !last with
          | true =>
            simp only [Bool.and_eq_true, Bool.not_eq_true', List.isEmpty_iff] at hlast
            obtain ⟨rfl, rfl⟩ := hlast
            rw [follow_lastLink hdots hentry, follow_lastLink hdots hlater]
          | false =>
            match links with
            | 0 => rw [follow_link_zero hdots hentry hlast, follow_link_zero hdots hlater hlast]
            | links + 1 =>
              rw [follow_link_succ hdots hentry hlast, follow_link_succ hdots hlater hlast]
              exact h.follow _ _ _ _
termination_by (links, names.length)

theorem link_iff {target : String} (h : SameBut places tree later) :
    later.entry? place = some (.link target) ↔ tree.entry? place = some (.link target) := by
  constructor
  · intro hlink
    rw [← hlink, h.symm.entry?_of_not_file (by simp [hlink])]
  · intro hlink
    rw [← hlink, h.entry?_of_not_file (by simp [hlink])]

theorem resolve (h : SameBut places tree later)
    (workingDirectory : Location) (path : Path) :
    later.resolve workingDirectory path = tree.resolve workingDirectory path := by
  have hlength : later.entries.length = tree.entries.length := by
    simpa using congrArg List.length h.locations
  rw [FileTree.resolve, FileTree.resolve, hlength, resolveWithin_congr fun _ _ => h.link_iff]

end SameBut

end FileTree

namespace Files

open FileTree

variable {files later : Files} {places : List Location} {path : Path}

/-- Later files are the same but for the contents of the regular files at some locations. -/
structure SameBut (places : List Location) (files later : Files) : Prop where
  tree : FileTree.SameBut places files.tree later.tree
  workingDirectory : later.workingDirectory = files.workingDirectory
  home : later.home = files.home

/-- A path does not lead to any of the given locations. -/
def Avoids (files : Files) (places : List Location) (path : Path) : Prop :=
  ∀ place entry, files.find path = .ok (.entry place entry) → place ∉ places

namespace SameBut

theorem symm (h : SameBut places files later) : SameBut places later files :=
  ⟨h.tree.symm, h.workingDirectory.symm, h.home.symm⟩

theorem trans {last : Files} (h : SameBut places files later)
    (hlast : SameBut places later last) : SameBut places files last :=
  ⟨h.tree.trans hlast.tree, hlast.workingDirectory.trans h.workingDirectory,
    hlast.home.trans h.home⟩

theorem find (h : SameBut places files later) (path : Path) :
    (later.find path).map Found.erase = (files.find path).map Found.erase := by
  have hfollow := h.tree.follow true linkLimit (start files.workingDirectory path) path.names
  rw [Files.find, Files.find]
  split
  · rfl
  · rw [FileTree.find, FileTree.find, h.workingDirectory]
    revert hfollow
    cases files.tree.follow true linkLimit (start files.workingDirectory path) path.names <;>
      cases later.tree.follow true linkLimit (start files.workingDirectory path) path.names <;>
      simp [Except.map, Except.mapError]
    rintro rfl
    rfl

theorem find_ok (h : SameBut places files later) {found : Found}
    (hfound : files.find path = .ok found) :
    ∃ other, later.find path = .ok other ∧ other.erase = found.erase := by
  have hfind := h.find path
  rw [hfound] at hfind
  cases hlater : later.find path with
  | error => simp [hlater, Except.map] at hfind
  | ok other => exact ⟨other, rfl, by simpa [hlater, Except.map] using hfind⟩

theorem find_directory (h : SameBut places files later) {place : Location}
    (hfound : files.find path = .ok (.entry place .directory)) :
    later.find path = .ok (.entry place .directory) := by
  obtain ⟨other, hother, herase⟩ := h.find_ok hfound
  rcases Found.eq_or_file_of_erase_eq herase with rfl | ⟨_, _, _, hfile, -⟩
  · exact hother
  · simp at hfile

theorem find_file (h : SameBut places files later) {place : Location} {content : List UInt8}
    (hfound : files.find path = .ok (.entry place (.file content))) :
    ∃ new, later.find path = .ok (.entry place (.file new)) := by
  obtain ⟨other, hother, herase⟩ := h.find_ok hfound
  rcases Found.eq_or_file_of_erase_eq herase with rfl | ⟨_, _, new, hfile, rfl⟩
  · exact ⟨content, hother⟩
  · injection hfile with hplace
    exact ⟨new, hplace ▸ hother⟩

theorem find_file_of_avoids (h : SameBut places files later) (havoids : files.Avoids places path)
    {place : Location} {content : List UInt8}
    (hfound : files.find path = .ok (.entry place (.file content))) :
    later.find path = .ok (.entry place (.file content)) := by
  obtain ⟨new, hnew⟩ := h.find_file hfound
  have hold := (find_eq_ok_iff.mp hfound).2.stands
  have hlater := (find_eq_ok_iff.mp hnew).2.stands
  simp only [Found.Stands] at hold hlater
  rw [h.tree.other place (havoids _ _ hfound), hold] at hlater
  injection hlater with hcontent
  rw [hcontent, hnew]

theorem isLink (h : SameBut places files later) (hlink : files.isLink path = true) :
    later.isLink path = true := by
  obtain ⟨place, target, hleads⟩ := isLink_iff.mp hlink
  have hfollow := h.tree.follow false linkLimit (start files.workingDirectory path) path.names
  rw [hleads.follow] at hfollow
  rw [Files.isLink, findLink, h.workingDirectory]
  cases hlater : later.tree.follow false linkLimit (start files.workingDirectory path)
      path.names with
  | error => simp [hlater, Except.map] at hfollow
  | ok found =>
    cases found with
    | vacant => simp [hlater, Except.map, Found.erase] at hfollow
    | entry other entry => cases entry <;> simp_all [Except.map, Found.erase]

theorem isDirectory (h : SameBut places files later) (path : Path) :
    later.isDirectory path = files.isDirectory path := by
  rw [Bool.eq_iff_iff, isDirectory_iff, isDirectory_iff]
  exact ⟨fun ⟨place, hfound⟩ => ⟨place, h.symm.find_directory hfound⟩,
    fun ⟨place, hfound⟩ => ⟨place, h.find_directory hfound⟩⟩

theorem isFile (h : SameBut places files later) (path : Path) :
    later.isFile path = files.isFile path := by
  rw [Bool.eq_iff_iff, isFile_iff, isFile_iff]
  constructor
  · rintro ⟨place, content, hfound⟩
    exact ⟨place, h.symm.find_file hfound⟩
  · rintro ⟨place, content, hfound⟩
    exact ⟨place, h.find_file hfound⟩

theorem names (h : SameBut places files later) (path : Path) :
    later.names path = files.names path := by
  by_cases hdirectory : files.isDirectory path = true
  · obtain ⟨place, hfound⟩ := isDirectory_iff.mp hdirectory
    rw [names_of_directory hfound, names_of_directory (h.find_directory hfound), h.tree.namesIn]
  · rw [names_of_not_directory hdirectory,
      names_of_not_directory ((h.isDirectory path).symm ▸ hdirectory)]

theorem resolve (h : SameBut places files later) (path : Path) :
    later.resolve path = files.resolve path := by
  rw [Files.resolve, Files.resolve, isStranded, isStranded, h.workingDirectory,
    h.tree.hasDirectory, h.tree.resolve]
  split
  · rfl
  split
  · rfl
  · simp only
    generalize hresolved : Path.absolute _ = resolved
    have hfollow := h.tree.follow true linkLimit (start files.workingDirectory resolved)
      resolved.names
    rw [FileTree.find, FileTree.find]
    revert hfollow
    cases files.tree.follow true linkLimit (start files.workingDirectory resolved)
      resolved.names <;>
      cases later.tree.follow true linkLimit (start files.workingDirectory resolved)
        resolved.names <;> simp [Except.map]
    rintro rfl
    rfl

theorem present (h : SameBut places files later) (path : Path) :
    later.present path = files.present path := by
  have hfind := h.find path
  rw [Files.present, Files.present, entry?, entry?]
  revert hfind
  cases files.find path with
  | error => cases later.find path <;> simp [Except.map]
  | ok found =>
    cases later.find path with
    | error => simp [Except.map]
    | ok other =>
      cases found with
      | vacant => cases other with
        | vacant => simp
        | entry other entry => cases entry <;> simp [Except.map, Found.erase]
      | entry place entry => cases other with
        | vacant => cases entry <;> simp [Except.map, Found.erase]
        | entry => simp

theorem expandHome (h : SameBut places files later) (path : Path) :
    later.expandHome path = files.expandHome path := by
  rw [Files.expandHome, Files.expandHome, h.home]

theorem bytes_ok (h : SameBut places files later) (havoids : files.Avoids places path)
    {content : List UInt8} (hbytes : files.bytes path = .ok content) :
    later.bytes path = .ok content := by
  obtain ⟨place, hfound⟩ := bytes_eq_ok_iff.mp hbytes
  exact bytes_eq_ok_iff.mpr ⟨place, h.find_file_of_avoids havoids hfound⟩

theorem avoids (h : SameBut places files later) (havoids : files.Avoids places path) :
    later.Avoids places path := by
  intro place entry hfound
  obtain ⟨other, hother, herase⟩ := h.symm.find_ok hfound
  rcases Found.eq_or_file_of_erase_eq herase with rfl | ⟨_, _, _, hfile, rfl⟩
  · exact havoids _ _ hother
  · injection hfile with hplace
    exact hplace ▸ havoids _ _ hother

end SameBut

end Files

end SdkCatalog
