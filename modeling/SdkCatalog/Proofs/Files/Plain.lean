import SdkCatalog.Proofs.Files.Contents
import SdkCatalog.Proofs.Files.Grounded

/-! Files without links: a path without pairs of dots leads to the location that it spells, and
resolution does not look at the files at all. -/

namespace SdkCatalog

namespace FileTree

variable {tree : FileTree} {place : Location}

/-- A tree without links in which every entry stands in a directory, under a name that is no pair
of dots. -/
structure Plain (tree : FileTree) : Prop where
  grounded : ∀ place name entry, tree.entry? (place ++ [name]) = some entry →
    tree.entry? place = some .directory ∧ name ≠ ".."
  linkFree : ∀ place target, tree.entry? place ≠ some (.link target)

theorem plain_iff : tree.Plain ↔ ∀ place ∈ tree.entries.map (·.1), place = [] ∨
    (tree.entry? place.dropLast = some .directory ∧ place.getLast? ≠ some ".." ∧
      ¬tree.entry? place matches some (.link _)) := by
  constructor
  · intro h place hplace
    refine (grounded_iff.mp h.grounded place hplace).imp_right fun hparent =>
      ⟨hparent.1, hparent.2, fun hlink => ?_⟩
    split at hlink
    · next target htarget => exact h.linkFree _ _ htarget
    · simp at hlink
  · intro h
    refine ⟨grounded_iff.mpr fun place hplace => (h place hplace).imp_right fun hparent =>
      ⟨hparent.1, hparent.2.1⟩, fun place target hlink => ?_⟩
    have hne : place ≠ [] := by
      rintro rfl
      simp [FileTree.entry?] at hlink
    have := ((h place ((exists_entry?_iff hne).mp ⟨_, hlink⟩)).resolve_left hne).2.2
    simp [hlink] at this

instance (tree : FileTree) : Decidable tree.Plain :=
  decidable_of_iff _ plain_iff.symm

namespace Plain

theorem not_dots (h : tree.Plain) {entry : Entry} (hentry : tree.entry? place = some entry) :
    ".." ∉ place :=
  Grounded.not_dots h.grounded hentry

/-- Names without pairs of dots lead to what stands at the location that they spell. -/
theorem leads (h : tree.Plain) {last : Bool} {links : Nat} {here : Location} {names : List String}
    {entry : Entry} (hhere : tree.entry? here = some .directory) (hdots : ".." ∉ names)
    (hentry : tree.entry? (here ++ names) = some entry) :
    Leads tree last links here names (.entry (here ++ names) entry) :=
  Grounded.leads h.grounded hhere hdots hentry fun target heq =>
    h.linkFree _ target (heq ▸ hentry)

/-- Names without pairs of dots lead nowhere but to the location that they spell. -/
theorem place_of_leads (h : tree.Plain) {last : Bool} {links : Nat} {here : Location}
    {names : List String} {found : Found} (hhere : tree.entry? here = some .directory)
    (hdots : ".." ∉ names) (hleads : Leads tree last links here names found) :
    (∃ entry, found = .entry (here ++ names) entry ∧ tree.entry? (here ++ names) = some entry) ∨
      ∃ parent name, found = .vacant (here ++ names) ∧ here ++ names = parent ++ [name] ∧
        name ≠ ".." ∧ tree.entry? parent = some .directory := by
  induction hleads with
  | here =>
    rw [List.append_nil]
    exact .inl ⟨_, rfl, hhere⟩
  | dots => exact absurd List.mem_cons_self hdots
  | vacant hname => exact .inr ⟨_, _, rfl, rfl, hname, hhere⟩
  | file _ hfile => exact .inl ⟨_, rfl, hfile⟩
  | directory _ hdirectory _ ih =>
    rw [← List.singleton_append, ← List.append_assoc]
    exact ih hdirectory fun hmem => hdots (List.mem_cons_of_mem _ hmem)
  | lastLink _ hlink => exact absurd hlink (h.linkFree _ _)
  | link _ hlink => exact absurd hlink (h.linkFree _ _)

theorem follow_ne_tooManyLinks (h : tree.Plain) (last : Bool) (links : Nat) (here : Location)
    (names : List String) : tree.follow last links here names ≠ .error .tooManyLinks := by
  induction names generalizing here with
  | nil => simp [follow_nil]
  | cons name rest ih =>
    by_cases hdots : name = ".."
    · rw [hdots, follow_dots]
      exact ih _
    · cases hentry : tree.entry? (here ++ [name]) with
      | none =>
        rw [follow_none hdots hentry]
        split <;> simp
      | some entry =>
        cases entry with
        | file content =>
          rw [follow_file hdots hentry]
          split <;> simp
        | directory =>
          rw [follow_directory hdots hentry]
          exact ih _
        | link target => exact absurd hentry (h.linkFree _ _)

theorem put (h : tree.Plain) {parent : Location} {name : String} {entry : Entry}
    (hopen : tree.Open (parent ++ [name])) (hname : name ≠ "..")
    (hparent : tree.entry? parent = some .directory) (hentry : ∀ target, entry ≠ .link target) :
    (tree.put (parent ++ [name]) entry).Plain := by
  have hdirectory : ∀ place, tree.entry? place = some .directory →
      FileTree.entry? (tree.put (parent ++ [name]) entry) place = some .directory := by
    intro place hplace
    rw [entry?_put_other (hopen.ne_of_directory hplace), hplace]
  constructor
  · intro place other found hfound
    by_cases hplace : place ++ [other] = parent ++ [name]
    · obtain ⟨rfl, hsame⟩ := List.append_inj' hplace rfl
      injection hsame with hsame
      exact ⟨hdirectory _ hparent, hsame ▸ hname⟩
    · rw [entry?_put_other hplace] at hfound
      obtain ⟨hold, hother⟩ := h.grounded _ _ _ hfound
      exact ⟨hdirectory _ hold, hother⟩
  · intro place target hfound
    by_cases hplace : place = parent ++ [name]
    · subst hplace
      rw [entry?_put_same (by simp)] at hfound
      injection hfound with hfound
      exact hentry target hfound
    · rw [entry?_put_other hplace] at hfound
      exact h.linkFree _ _ hfound

end Plain

/-- The location that names lead to when nothing is looked up. -/
def walk (here : Location) (names : List String) : Location :=
  names.foldl (fun here name => if name = ".." then here.dropLast else here ++ [name]) here

theorem not_dots_walk {here : Location} {names : List String} (h : ".." ∉ here) :
    ".." ∉ walk here names := by
  induction names generalizing here with
  | nil => exact h
  | cons name rest ih =>
    rw [walk, List.foldl_cons]
    refine ih ?_
    split
    · exact fun hmem => h (List.dropLast_subset _ hmem)
    · next hname => simp [h, Ne.symm hname]

theorem walk_of_not_dots {here : Location} {names : List String} (h : ".." ∉ names) :
    walk here names = here ++ names := by
  induction names generalizing here with
  | nil => simp [walk]
  | cons name rest ih =>
    have hname : name ≠ ".." := fun heq => h (heq ▸ List.mem_cons_self)
    rw [walk, List.foldl_cons, if_neg hname]
    exact (ih fun hmem => h (List.mem_cons_of_mem _ hmem)).trans (by simp)

theorem Plain.resolve (h : tree.Plain) (workingDirectory : Location) (path : Path) :
    tree.resolve workingDirectory path = .ok (walk (start workingDirectory path) path.names) := by
  have hnames : ∀ onLink active here names,
      tree.resolveNames onLink active here names = .ok (walk here names) := by
    intro onLink active here names
    induction names generalizing here with
    | nil => rfl
    | cons name rest ih =>
      rw [walk, List.foldl_cons]
      split
      · next hdots => rw [hdots, resolveNames, if_pos rfl, ih, walk]
      · next hdots => rw [resolveNames_other hdots fun target => h.linkFree _ _, ih, walk]
  rw [FileTree.resolve, resolveWithin]
  exact hnames _ _ _ _

end FileTree

namespace Files

open FileTree

variable {files : Files} {path : Path} {place : Location} {entry : Entry}

/-- Files without links, seen from a directory that is there. -/
structure Plain (files : Files) : Prop where
  tree : files.tree.Plain
  workingDirectory : files.tree.entry? files.workingDirectory = some .directory

instance (files : Files) : Decidable files.Plain :=
  decidable_of_iff (files.tree.Plain ∧
      files.tree.entry? files.workingDirectory = some .directory)
    ⟨fun h => ⟨h.1, h.2⟩, fun h => ⟨h.tree, h.workingDirectory⟩⟩

/-- The location that a path spells. -/
def locate (files : Files) (path : Path) : Location :=
  start files.workingDirectory path ++ path.names

theorem locate_child {name : String} (hname : Path.Single name) (path : Path) :
    files.locate (path.child name) = files.locate path ++ [name] := by
  rw [hname.child, locate, locate, List.append_assoc]
  rfl

namespace Plain

theorem directory_start (h : files.Plain) (path : Path) :
    files.tree.entry? (start files.workingDirectory path) = some .directory :=
  entry?_targetStart h.workingDirectory path

theorem find_entry_iff (h : files.Plain) (hdots : ".." ∉ path.names) :
    files.find path = .ok (.entry place entry) ↔
      path.hasNull = false ∧ place = files.locate path ∧ files.tree.entry? place = some entry := by
  rw [find_eq_ok_iff]
  refine and_congr_right fun _ => ⟨fun hleads => ?_, ?_⟩
  · rcases h.tree.place_of_leads (h.directory_start path) hdots hleads with
      ⟨other, hfound, hother⟩ | ⟨_, _, hfound, -⟩
    · injection hfound with hplace hentry
      subst hplace hentry
      exact ⟨rfl, hother⟩
    · simp at hfound
  · rintro ⟨rfl, hentry⟩
    exact h.tree.leads (h.directory_start path) hdots hentry

/-- A path leads to what stands at the location that it spells. -/
theorem entry?_iff (h : files.Plain) (hdots : ".." ∉ path.names) :
    files.entry? path = some entry ↔
      path.hasNull = false ∧ files.tree.entry? (files.locate path) = some entry := by
  rw [entry?_eq_some_iff]
  simp only [h.find_entry_iff hdots, exists_and_left, exists_eq_left]

/-- A vacant end of a path is the location that it spells, in a directory that is there. -/
theorem of_find_vacant (h : files.Plain) (hdots : ".." ∉ path.names)
    (hvacant : files.find path = .ok (.vacant place)) : place = files.locate path ∧
      ∃ parent name, place = parent ++ [name] ∧ name ≠ ".." ∧
        files.tree.entry? parent = some .directory := by
  rcases h.tree.place_of_leads (h.directory_start path) hdots (find_eq_ok_iff.mp hvacant).2 with
    ⟨_, hfound, -⟩ | ⟨parent, name, hfound, hplace, hname, hparent⟩
  · simp at hfound
  · injection hfound with hfound
    subst hfound
    exact ⟨rfl, parent, name, hplace, hname, hparent⟩

theorem isLink (h : files.Plain) (path : Path) : files.isLink path = false := by
  cases hlink : files.isLink path with
  | false => rfl
  | true =>
    obtain ⟨place, target, hleads⟩ := isLink_iff.mp hlink
    exact absurd hleads.stands (h.tree.linkFree _ _)

theorem resolve (h : files.Plain) (path : Path) : files.resolve path =
    if path.hasNull then .error .nullCharacter
    else .ok (.absolute (walk (start files.workingDirectory path) path.names)) := by
  rw [Files.resolve, h.tree.resolve, isStranded_of_directory h.workingDirectory,
    if_neg Bool.false_ne_true]
  split
  · rfl
  · simp only
    split
    · next hlinks => exact absurd hlinks (h.tree.follow_ne_tooManyLinks _ _ _ _)
    · rfl

theorem put {parent : Location} {name : String} (h : files.Plain)
    (hopen : files.tree.Open (parent ++ [name])) (hname : name ≠ "..")
    (hparent : files.tree.entry? parent = some .directory)
    (hentry : ∀ target, entry ≠ .link target) : (files.put (parent ++ [name]) entry).Plain where
  tree := h.tree.put hopen hname hparent hentry
  workingDirectory := by
    rw [Files.put, entry?_put_other (hopen.ne_of_directory h.workingDirectory),
      h.workingDirectory]

end Plain

theorem SameBut.locate_eq {later : Files} {places : List Location}
    (h : SameBut places files later) (path : Path) : later.locate path = files.locate path := by
  rw [locate, locate, h.workingDirectory]

theorem SameBut.plain {later : Files} {places : List Location} (h : SameBut places files later)
    (hfiles : files.Plain) : later.Plain := by
  have hdirectory : ∀ place, files.tree.entry? place = some .directory →
      later.tree.entry? place = some .directory := by
    intro place hplace
    rw [h.tree.entry?_of_not_file (by simp [hplace]), hplace]
  refine ⟨⟨fun place name entry hentry => ?_, fun place target hlink => ?_⟩, ?_⟩
  · have hbefore : ∃ entry, files.tree.entry? (place ++ [name]) = some entry := by
      by_cases hplace : place ++ [name] ∈ places
      · obtain ⟨content, hcontent⟩ := h.tree.before _ hplace
        exact ⟨_, hcontent⟩
      · exact ⟨entry, (h.tree.other _ hplace).symm.trans hentry⟩
    obtain ⟨old, hold⟩ := hbefore
    obtain ⟨hparent, hname⟩ := hfiles.tree.grounded _ _ _ hold
    exact ⟨hdirectory _ hparent, hname⟩
  · exact hfiles.tree.linkFree _ _ (h.tree.link_iff.mp hlink)
  · rw [h.workingDirectory]
    exact hdirectory _ hfiles.workingDirectory

end Files

end SdkCatalog
