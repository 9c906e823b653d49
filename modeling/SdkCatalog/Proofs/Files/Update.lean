import SdkCatalog.Files.Basic
import SdkCatalog.Proofs.Files.Tree

/-! Making directories and writing files: what stands at a path afterwards, and what stays. -/

namespace SdkCatalog

/-! ### Steps that may fail -/

theorem bind_eq_ok_iff {ε α β : Type} {first : Except ε α} {next : α → Except ε β} {answer : β} :
    first >>= next = .ok answer ↔ ∃ value, first = .ok value ∧ next value = .ok answer := by
  cases first <;> simp [bind, Except.bind]

theorem mapError_eq_ok_iff {ε ε' α : Type} {outcome : Except ε α} {failure : ε → ε'} {value : α} :
    outcome.mapError failure = .ok value ↔ outcome = .ok value := by
  cases outcome <;> simp [Except.mapError]

/-! ### Names of files -/

/-- A text that names a file in a directory: one name, and no pair of dots. -/
structure Path.Single (name : String) : Prop where
  ofString : Path.ofString name = ⟨.relative, [name]⟩
  not_dots : name ≠ ".."

instance (name : String) : Decidable (Path.Single name) :=
  decidable_of_iff (Path.ofString name = ⟨.relative, [name]⟩ ∧ name ≠ "..")
    ⟨fun h => ⟨h.1, h.2⟩, fun h => ⟨h.ofString, h.not_dots⟩⟩

theorem Path.Single.child {name : String} (h : Path.Single name) (path : Path) :
    path.child name = ⟨path.anchor, path.names ++ [name]⟩ := by
  rw [Path.child, h.ofString, Path.join]

theorem Path.Single.not_dots_child {name : String} {path : Path} (h : Path.Single name)
    (hdots : ".." ∉ path.names) : ".." ∉ (path.child name).names := by
  simp [h.child, hdots, h.not_dots.symm]

theorem Path.hasNull_child {name : String} (h : Path.Single name) (path : Path) :
    (path.child name).hasNull = (path.hasNull || name.toList.contains (Char.ofNat 0)) := by
  rw [h.child, Path.hasNull, Path.hasNull, List.any_append, List.any_cons, List.any_nil,
    Bool.or_false]

namespace Files

open FileTree

variable {files made : Files} {path : Path} {place : Location}

/-! ### Where paths lead -/

theorem find_eq_ok_iff {found : Found} :
    files.find path = .ok found ↔ path.hasNull = false ∧
      Leads files.tree true linkLimit (start files.workingDirectory path) path.names found := by
  rw [find, ← follow_eq_ok_iff]
  cases path.hasNull with
  | true => simp
  | false =>
    rw [if_neg (by simp), FileTree.find]
    cases files.tree.follow true linkLimit (start files.workingDirectory path) path.names <;>
      simp [Except.mapError]

theorem isStranded_of_directory (h : files.tree.entry? files.workingDirectory = some .directory)
    (path : Path) : files.isStranded path = false := by
  rw [isStranded, hasDirectory_iff.mpr h, Bool.not_true, Bool.and_false]

theorem entry?_eq_some_iff {entry : Entry} :
    files.entry? path = some entry ↔ ∃ place, files.find path = .ok (.entry place entry) := by
  rw [Files.entry?]
  split
  · next place other hfound => simp [hfound]
  · next h =>
    simp only [reduceCtorEq, false_iff, not_exists]
    exact fun place hfound => h place entry hfound

theorem isDirectory_iff :
    files.isDirectory path = true ↔ ∃ place, files.find path = .ok (.entry place .directory) := by
  rw [← entry?_eq_some_iff, isDirectory]
  cases files.entry? path with
  | none => simp
  | some entry => cases entry <;> simp

theorem isFile_iff : files.isFile path = true ↔
    ∃ place content, files.find path = .ok (.entry place (.file content)) := by
  rw [exists_comm]
  simp only [← entry?_eq_some_iff]
  rw [isFile]
  cases files.entry? path with
  | none => simp
  | some entry => cases entry <;> simp

theorem bytes_eq_ok_iff {content : List UInt8} : files.bytes path = .ok content ↔
    ∃ place, files.find path = .ok (.entry place (.file content)) := by
  rw [bytes]
  split
  · next place other hfound => simp [hfound]
  · next hother hfound =>
    simp only [hfound, reduceCtorEq, Except.ok.injEq, Found.entry.injEq, false_iff, not_exists]
    rintro place ⟨-, rfl⟩
    exact hother _ rfl
  · next hfound => simp [hfound]
  · next hfound => simp [hfound]

theorem text_eq_ok_iff {cs : List Char} : files.text path = .ok cs ↔
    ∃ content, files.bytes path = .ok content ∧ textOf content = .ok cs := by
  simp only [text, bind_eq_ok_iff, mapError_eq_ok_iff]

theorem names_of_directory (h : files.find path = .ok (.entry place .directory)) :
    files.names path = files.tree.namesIn place := by
  rw [names, h]

theorem names_of_not_directory (h : ¬files.isDirectory path = true) : files.names path = [] := by
  rw [names]
  split
  · next place hfound => exact absurd (isDirectory_iff.mpr ⟨place, hfound⟩) h
  · rfl

def isLink (files : Files) (path : Path) : Bool :=
  files.tree.findLink files.workingDirectory path matches .ok (.entry _ (.link _))

theorem isLink_iff : files.isLink path = true ↔ ∃ place target,
    Leads files.tree false linkLimit (start files.workingDirectory path) path.names
      (.entry place (.link target)) := by
  simp only [← follow_eq_ok_iff]
  rw [isLink, findLink]
  split
  · next place target h => simp [h]
  · next h =>
    simp only [Bool.false_eq_true, false_iff, not_exists]
    exact fun place target hfound => h place target hfound

theorem follow_child {name : String} (hname : Path.Single name)
    (hdirectory : files.find directory = .ok (.entry place .directory)) :
    ∃ left, ∀ last, files.tree.follow last linkLimit
        (start files.workingDirectory (directory.child name)) (directory.child name).names =
      files.tree.follow last left place [name] := by
  obtain ⟨left, hleft⟩ := (find_eq_ok_iff.mp hdirectory).2.follow_append
  refine ⟨left, fun last => ?_⟩
  rw [hname.child, ← hleft last [name] (by simp)]
  rfl

theorem isLink_child {name : String} (hname : Path.Single name)
    (hdirectory : files.find directory = .ok (.entry place .directory)) :
    files.isLink (directory.child name) = true ↔
      ∃ target, files.tree.entry? (place ++ [name]) = some (.link target) := by
  obtain ⟨left, hleft⟩ := follow_child hname hdirectory
  simp only [isLink_iff, ← follow_eq_ok_iff, hleft]
  constructor
  · rintro ⟨other, target, h⟩
    cases leads_of_follow h with
    | dots => exact absurd rfl hname.not_dots
    | directory _ _ h => nomatch h
    | lastLink _ hentry _ => exact ⟨target, hentry⟩
    | link _ _ hlast _ => simp at hlast
  · rintro ⟨target, h⟩
    exact ⟨_, target, follow_lastLink hname.not_dots h⟩

/-! ### Growth -/

/-- One state of files comes from another by making directories where nothing stood and by writing
regular files where nothing or a regular file stood. -/
inductive Grows (files : Files) : Files → Prop
  | refl : Grows files files
  | directory {made : Files} {place : Location} : Grows files made →
    made.tree.entry? place = none → Grows files (made.put place .directory)
  | file {made : Files} {place : Location} {content : List UInt8} : Grows files made →
    made.tree.Open place → Grows files (made.put place (.file content))

theorem Grows.trans {later : Files} (h : files.Grows made) (hlater : made.Grows later) :
    files.Grows later := by
  induction hlater with
  | refl => exact h
  | directory _ hnone ih => exact ih.directory hnone
  | file _ hopen ih => exact ih.file hopen

theorem find_put {entry : Entry} {found : Found} (hopen : files.tree.Open place)
    (hentry : ∀ target, entry ≠ .link target) (h : files.find path = .ok found) :
    (files.put place entry).find path = .ok (found.put place entry) := by
  rw [find_eq_ok_iff] at h ⊢
  exact ⟨h.1, h.2.put hopen hentry⟩

theorem Grows.find_directory (h : files.Grows made)
    (hdirectory : files.find path = .ok (.entry place .directory)) :
    made.find path = .ok (.entry place .directory) := by
  induction h with
  | refl => exact hdirectory
  | directory _ hnone ih => exact find_put (.inl hnone) (by simp) ih
  | file _ hopen ih => exact find_put hopen (by simp) ih

theorem Grows.isLink (h : files.Grows made) (hlink : files.isLink path = true) :
    made.isLink path = true := by
  induction h with
  | refl => exact hlink
  | directory _ hnone ih =>
    obtain ⟨other, target, hleads⟩ := isLink_iff.mp ih
    exact isLink_iff.mpr ⟨other, target, hleads.put (.inl hnone) (by simp)⟩
  | file _ hopen ih =>
    obtain ⟨other, target, hleads⟩ := isLink_iff.mp ih
    exact isLink_iff.mpr ⟨other, target, hleads.put hopen (by simp)⟩

theorem Grows.not_isLink (h : files.Grows made) (hnone : made.isLink path = false) :
    files.isLink path = false := by
  cases hlink : files.isLink path with
  | false => rfl
  | true => exact absurd (h.isLink hlink) (by simp [hnone])

/-- Regular files stay where they are, if not as they are. -/
theorem Grows.entry?_file (h : files.Grows made)
    (hfile : ∃ content, files.tree.entry? place = some (.file content)) :
    ∃ content, made.tree.entry? place = some (.file content) := by
  induction h with
  | refl => exact hfile
  | @directory made other _ hnone ih =>
    obtain ⟨content, hcontent⟩ := ih
    have hne : place ≠ other := by
      rintro rfl
      simp [hnone] at hcontent
    exact ⟨content, (entry?_put_other hne).trans hcontent⟩
  | @file made other content _ hopen ih =>
    by_cases hplace : place = other
    · subst hplace
      exact ⟨content, entry?_put_same hopen.ne_nil⟩
    · obtain ⟨old, hold⟩ := ih
      exact ⟨old, (entry?_put_other hplace).trans hold⟩

theorem Grows.workingDirectory (h : files.Grows made) :
    made.workingDirectory = files.workingDirectory := by
  induction h with
  | refl => rfl
  | directory _ _ ih => exact ih
  | file _ _ ih => exact ih

theorem Grows.entry?_directory (h : files.Grows made)
    (hdirectory : files.tree.entry? place = some .directory) :
    made.tree.entry? place = some .directory := by
  induction h with
  | refl => exact hdirectory
  | directory _ hnone ih => exact (entry?_put_other (Open.ne_of_directory (.inl hnone) ih)).trans ih
  | file _ hopen ih => exact (entry?_put_other (hopen.ne_of_directory ih)).trans ih

theorem here_eq_ok_iff {directory : Path} : files.here = .ok directory ↔
    files.tree.entry? files.workingDirectory = some .directory ∧
      directory = .absolute files.workingDirectory := by
  rw [here, ← hasDirectory_iff]
  cases files.tree.hasDirectory files.workingDirectory <;> simp [eq_comm]

theorem here_eq_error_iff {fault : FileFault} : files.here = .error fault ↔
    files.tree.entry? files.workingDirectory ≠ some .directory ∧ fault = .hereMissing := by
  rw [here, ne_eq, ← hasDirectory_iff]
  cases files.tree.hasDirectory files.workingDirectory <;> simp [eq_comm]

theorem Grows.here (h : files.Grows made) {directory : Path} (hhere : files.here = .ok directory) :
    made.here = .ok directory := by
  obtain ⟨hdirectory, rfl⟩ := here_eq_ok_iff.mp hhere
  rw [← h.workingDirectory]
  exact here_eq_ok_iff.mpr ⟨h.workingDirectory ▸ h.entry?_directory hdirectory, rfl⟩

theorem Grows.spelled (h : files.Grows made) {spelled : Path}
    (hspelled : files.spelled path = .ok spelled) : made.spelled path = .ok spelled := by
  rw [Files.spelled] at hspelled ⊢
  cases hanchor : path.anchor with
  | relative =>
    simp only [hanchor] at hspelled ⊢
    cases hhere : files.here with
    | error fault => simp [hhere, Except.map] at hspelled
    | ok directory => rw [h.here hhere, ← hspelled, hhere]
  | root | doubleRoot => simpa only [hanchor] using hspelled

/-! ### Directories -/

theorem makeDirectory_ok (h : files.makeDirectory path = .ok made) :
    ∃ place, files.find path = .ok (.vacant place) ∧ made = files.put place .directory := by
  rw [makeDirectory] at h
  split at h
  · simp at h
  · next hnull =>
    split at h
    · next place hvacant =>
      injection h with h
      refine ⟨place, find_eq_ok_iff.mpr ⟨by simpa using hnull, ?_⟩, h.symm⟩
      exact (leads_of_follow hvacant).with_last
    · simp at h
    · simp at h

theorem open_of_find_vacant (h : files.find path = .ok (.vacant place)) : files.tree.Open place :=
  .inl (find_eq_ok_iff.mp h).2.stands

theorem makeDirectory_spec (h : files.makeDirectory path = .ok made) :
    made.isDirectory path = true ∧ files.Grows made := by
  obtain ⟨place, hvacant, rfl⟩ := makeDirectory_ok h
  have hopen := open_of_find_vacant hvacant
  refine ⟨isDirectory_iff.mpr ⟨place, ?_⟩, .directory .refl (find_eq_ok_iff.mp hvacant).2.stands⟩
  rw [find_put hopen (by simp) hvacant, Found.put, if_pos rfl]

theorem makeDirectory_of_isDirectory (h : files.isDirectory path = true) :
    files.makeDirectory path = .error (.alreadyThere path.text) := by
  obtain ⟨place, hfound⟩ := isDirectory_iff.mp h
  obtain ⟨hnull, hleads⟩ := find_eq_ok_iff.mp hfound
  obtain ⟨other, entry, hlink⟩ := hleads.without_last
  rw [makeDirectory, hnull, if_neg (by simp), findLink, hlink.follow]

theorem ensureLast_ok (h : files.ensureLast path = .ok made) :
    made.isDirectory path = true ∧ files.Grows made := by
  rw [ensureLast] at h
  split at h
  · next hmade =>
    injection h with h
    exact h ▸ makeDirectory_spec hmade
  · split at h
    · simp at h
    · simp at h
    · split at h
      · next hthere =>
        injection h with h
        exact h ▸ ⟨hthere, .refl⟩
      · simp at h

theorem ensureDirectory_of_isDirectory (h : files.isDirectory path = true) :
    files.ensureDirectory path = (.ok (), files) := by
  rw [ensureDirectory, makeDirectory_of_isDirectory h]
  simp only [h, if_pos]

/-- Whether or not it succeeds, ensuring a directory leaves directories and links where they
are. -/
theorem grows_ensureDirectory (files : Files) (path : Path) :
    files.Grows (files.ensureDirectory path).2 := by
  fun_induction ensureDirectory files path with
  | case1 path made hmade => exact (makeDirectory_spec hmade).2
  | case3 path _ _ above habove made hmade _ ih =>
    rw [habove] at ih
    exact ih.trans (ensureLast_ok hmade).2
  | case4 path _ _ above habove _ _ _ ih =>
    rw [habove] at ih
    exact ih
  | case5 path _ _ _ _ habove _ ih =>
    rw [habove] at ih
    exact ih
  | case2 => exact .refl
  | case6 => exact .refl
  | case7 => exact .refl
  | case8 => exact .refl

/-- At a location stands what stood there before, or a directory that was made where nothing stood
and has a name of a path. -/
def KeptAt (path : Path) (files later : Files) (place : Location) : Prop :=
  later.tree.entry? place = files.tree.entry? place ∨
    files.tree.entry? place = none ∧ later.tree.entry? place = some .directory ∧
      ∃ name ∈ path.names, place.getLast? = some name

theorem KeptAt.trans {later : Files} (h : KeptAt path files made place)
    (hlater : KeptAt path made later place) : KeptAt path files later place := by
  rcases h with hsame | ⟨hnone, hmade, hname⟩
  · rcases hlater with hsame' | ⟨hnone, hmade, hname⟩
    · exact .inl (hsame'.trans hsame)
    · exact .inr ⟨hsame ▸ hnone, hmade, hname⟩
  · rcases hlater with hsame' | ⟨hnone', -, -⟩
    · exact .inr ⟨hnone, hsame'.trans hmade, hname⟩
    · simp [hmade] at hnone'

/-- What stands at a location stays there. -/
theorem KeptAt.of_some {entry : Entry} (h : KeptAt path files made place)
    (hentry : files.tree.entry? place = some entry) : made.tree.entry? place = some entry := by
  rcases h with hsame | ⟨hnone, -, -⟩
  · exact hsame.trans hentry
  · simp [hentry] at hnone

/-- Later files differ at most in directories made on the way along a path. -/
def Made (path : Path) (files made : Files) : Prop :=
  ∀ place, KeptAt path files made place

theorem Made.refl (path : Path) (files : Files) : Made path files files :=
  fun _ => .inl rfl

theorem Made.trans {later : Files} (h : Made path files made) (hlater : Made path made later) :
    Made path files later :=
  fun place => (h place).trans (hlater place)

theorem Made.of_parent (h : Made path.parent files made) : Made path files made :=
  fun place => (h place).imp_right fun ⟨hnone, hmade, name, hname, hplace⟩ =>
    ⟨hnone, hmade, name, List.dropLast_subset _ hname, hplace⟩

theorem made_makeDirectory (h : files.makeDirectory path = .ok made) : Made path files made := by
  rw [makeDirectory] at h
  split at h
  · simp at h
  · split at h
    · next place hvacant =>
      injection h with h
      subst h
      have hleads := leads_of_follow hvacant
      obtain ⟨name, hname, hplace⟩ := hleads.last_of_vacant
      have hnone : files.tree.entry? place = none := hleads.stands
      intro other
      by_cases hother : other = place
      · subst hother
        exact .inr ⟨hnone, entry?_put_same (Open.ne_nil (.inl hnone)), name,
          List.mem_of_getLast? hname, hplace⟩
      · exact .inl (entry?_put_other hother)
    · simp at h
    · simp at h

theorem made_ensureLast (h : files.ensureLast path = .ok made) : Made path files made := by
  rw [ensureLast] at h
  split at h
  · next hmade =>
    injection h with h
    exact h ▸ made_makeDirectory hmade
  · split at h
    · simp at h
    · simp at h
    · split at h
      · injection h with h
        exact h ▸ .refl path files
      · simp at h

/-- Whether or not it succeeds, ensuring a directory changes nothing but makes directories. -/
theorem made_ensureDirectory (files : Files) (path : Path) :
    Made path files (files.ensureDirectory path).2 := by
  fun_induction ensureDirectory files path with
  | case1 path made hmade => exact made_makeDirectory hmade
  | case3 path _ _ above habove made hmade _ ih =>
    rw [habove] at ih
    exact ih.of_parent.trans (made_ensureLast hmade)
  | case4 path _ _ above habove _ _ _ ih =>
    rw [habove] at ih
    exact ih.of_parent
  | case5 path _ _ _ _ habove _ ih =>
    rw [habove] at ih
    exact ih.of_parent
  | case2 => exact .refl _ _
  | case6 => exact .refl _ _
  | case7 => exact .refl _ _
  | case8 => exact .refl _ _

theorem isDirectory_of_ensureDirectory (h : files.ensureDirectory path = (.ok (), made)) :
    made.isDirectory path = true := by
  rw [ensureDirectory] at h
  split at h
  · next hmade =>
    injection h with _ h
    exact h ▸ (makeDirectory_spec hmade).1
  · split at h
    · split at h
      · simp at h
      · split at h
        · split at h
          · next hmade =>
            injection h with _ h
            exact h ▸ (ensureLast_ok hmade).1
          · simp at h
        · simp at h
    · simp at h
    · split at h
      · next hthere =>
        injection h with _ h
        exact h ▸ hthere
      · simp at h

/-! ### Regular files -/

theorem fileLocation_ok (h : files.fileLocation path = .ok place) :
    files.tree.Open place ∧ (files.find path = .ok (.vacant place) ∨
      ∃ old, files.find path = .ok (.entry place (.file old))) := by
  rw [fileLocation] at h
  split at h
  · next other hvacant =>
    injection h with h
    subst h
    exact ⟨open_of_find_vacant hvacant, .inl hvacant⟩
  · next other old hfile =>
    injection h with h
    subst h
    exact ⟨.inr ⟨old, (find_eq_ok_iff.mp hfile).2.stands⟩, .inr ⟨old, hfile⟩⟩
  · simp at h
  · simp at h

/-- A file that is put where a path leads to is found there. -/
theorem find_put_of_fileLocation (h : files.fileLocation path = .ok place)
    (content : List UInt8) : (files.put place (.file content)).find path =
      .ok (.entry place (.file content)) := by
  obtain ⟨hopen, hfound | ⟨old, hfound⟩⟩ := fileLocation_ok h
  · rw [find_put hopen (by simp) hfound, Found.put, if_pos rfl]
  · rw [find_put hopen (by simp) hfound, Found.put, if_pos rfl]

theorem write_eq_ok_iff {content : List UInt8} : files.write path content = .ok made ↔
    ∃ place, files.fileLocation path = .ok place ∧ made = files.put place (.file content) := by
  rw [write]
  cases files.fileLocation path <;> simp [Except.map, eq_comm]

theorem write_ok {content : List UInt8} (h : files.write path content = .ok made) :
    ∃ place, files.tree.Open place ∧ made = files.put place (.file content) ∧
      (files.find path = .ok (.vacant place) ∨
        ∃ old, files.find path = .ok (.entry place (.file old))) := by
  obtain ⟨place, hplace, hmade⟩ := write_eq_ok_iff.mp h
  obtain ⟨hopen, hfound⟩ := fileLocation_ok hplace
  exact ⟨place, hopen, hmade, hfound⟩

theorem write_spec {content : List UInt8} (h : files.write path content = .ok made) :
    files.Grows made ∧ made.bytes path = .ok content := by
  obtain ⟨place, hplace, rfl⟩ := write_eq_ok_iff.mp h
  exact ⟨.file .refl (fileLocation_ok hplace).1, by rw [bytes, find_put_of_fileLocation hplace]⟩

/-- A file that is no link is written at its own location in its directory. -/
theorem write_child {name : String} {content : List UInt8} (hname : Path.Single name)
    (hdirectory : files.find directory = .ok (.entry place .directory))
    (h : files.write (directory.child name) content = .ok made)
    (hlink : files.isLink (directory.child name) = false) :
    files.tree.Open (place ++ [name]) ∧ made = files.put (place ++ [name]) (.file content) := by
  have hnone : ∀ target, files.tree.entry? (place ++ [name]) ≠ some (.link target) := by
    intro target hentry
    rw [(isLink_child hname hdirectory).mpr ⟨target, hentry⟩] at hlink
    simp at hlink
  obtain ⟨other, hopen, rfl, hfound⟩ := write_ok h
  suffices hother : other = place ++ [name] by exact hother ▸ ⟨hopen, rfl⟩
  obtain ⟨left, hleft⟩ := follow_child hname hdirectory
  simp only [find_eq_ok_iff, ← follow_eq_ok_iff, hleft] at hfound
  rcases hfound with ⟨-, hfound⟩ | ⟨old, -, hfound⟩
  · cases leads_of_follow hfound with
    | dots => exact absurd rfl hname.not_dots
    | vacant => rfl
    | directory _ _ h => nomatch h
    | link _ hentry => exact absurd hentry (hnone _)
  · cases leads_of_follow hfound with
    | dots => exact absurd rfl hname.not_dots
    | file => rfl
    | directory _ _ h => nomatch h
    | link _ hentry => exact absurd hentry (hnone _)

end Files

end SdkCatalog
