import SdkCatalog.Proofs.Files.Grounded
import SdkCatalog.Proofs.Files.Update

/-! Resolution of paths that lead somewhere. Following a path counts the links on the way, while
resolving it looks out for links that lead back to themselves; a path that leads to an entry
resolves to the location of the entry all the same. -/

namespace SdkCatalog

namespace FileTree

variable {tree : FileTree} {links depth : Nat} {active : List Location} {here place : Location}
  {name : String} {names rest : List String} {entry : Entry} {found : Found}

/-! ### Ways cut in two -/

namespace Leads

theorem mono {last : Bool} {more : Nat} (h : Leads tree last links here names found)
    (hmore : links ≤ more) : Leads tree last more here names found := by
  induction h generalizing more with
  | here => exact .here
  | dots _ ih => exact .dots (ih hmore)
  | vacant hdots hentry hhere => exact .vacant hdots hentry hhere
  | file hdots hentry => exact .file hdots hentry
  | directory hdots hentry _ ih => exact .directory hdots hentry (ih hmore)
  | lastLink hdots hentry hlast => exact .lastLink hdots hentry hlast
  | link hdots hentry hlast _ ih =>
    obtain ⟨fewer, rfl⟩ : ∃ fewer, more = fewer + 1 := ⟨more - 1, by omega⟩
    exact .link hdots hentry hlast (ih (by omega))

/-- Names lead to one thing only, however many links are allowed. -/
theorem unique {last : Bool} {more : Nat} {other : Found}
    (h : Leads tree last links here names found) (hother : Leads tree last more here names other) :
    found = other := by
  have hfound := (h.mono (Nat.le_max_left links more)).follow
  have hsame := (hother.mono (Nat.le_max_right links more)).follow
  rw [hfound] at hsame
  injection hsame

/-- Names that lead on lead to a directory first. -/
theorem split {links : Nat} {here : Location} {first : List String}
    (h : Leads tree true links here (first ++ rest) found) (hrest : rest ≠ []) :
    ∃ directory, Leads tree true links here first (.entry directory .directory) ∧
      Leads tree true links directory rest found := by
  match first with
  | [] => exact ⟨here, .here, h⟩
  | name :: first =>
    have hnames : first ++ rest ≠ [] := by simp [hrest]
    rw [List.cons_append] at h
    generalize hall : first ++ rest = all at h hnames
    cases h with
    | dots h =>
      obtain ⟨directory, hfirst, hlast⟩ := split (hall ▸ h) hrest
      exact ⟨directory, .dots hfirst, hlast⟩
    | vacant | file | lastLink => exact absurd rfl hnames
    | directory hdots hentry h =>
      obtain ⟨directory, hfirst, hlast⟩ := split (hall ▸ h) hrest
      exact ⟨directory, .directory hdots hentry hfirst, hlast⟩
    | link hdots hentry _ h =>
      rw [← hall, ← List.append_assoc] at h
      obtain ⟨directory, hfirst, hlast⟩ := split h hrest
      exact ⟨directory, .link hdots hentry (by simp) hfirst, hlast.mono (Nat.le_succ _)⟩
termination_by (links, first.length)

/-- The first of some names leads somewhere, and the others lead on from there. -/
theorem uncons (h : Leads tree true links here (name :: rest) (.entry place entry)) :
    ∃ there other, Leads tree true links here [name] (.entry there other) ∧
      (rest = [] ∧ there = place ∨ Leads tree true links there rest (.entry place entry)) := by
  by_cases hrest : rest = []
  · exact ⟨place, entry, hrest ▸ h, .inl ⟨hrest, rfl⟩⟩
  · have hsplit : Leads tree true links here ([name] ++ rest) (.entry place entry) := h
    obtain ⟨directory, hfirst, hlast⟩ := hsplit.split hrest
    exact ⟨directory, .directory, hfirst, .inr hlast⟩

end Leads

/-! ### Resolution name by name -/

theorem resolveWithin_nil : tree.resolveWithin depth active here [] = .ok here := by
  cases depth <;> rfl

theorem resolveWithin_dots : tree.resolveWithin depth active here (".." :: rest) =
    tree.resolveWithin depth active here.dropLast rest := by
  cases depth <;> simp only [resolveWithin, resolveNames, if_pos]

theorem resolveWithin_other (hdots : name ≠ "..")
    (hentry : tree.entry? (here ++ [name]) = some entry) (hlink : ∀ target, entry ≠ .link target) :
    tree.resolveWithin depth active here (name :: rest) =
      tree.resolveWithin depth active (here ++ [name]) rest := by
  have hother : ∀ target, tree.entry? (here ++ [name]) ≠ some (.link target) := by
    intro target h
    rw [hentry] at h
    injection h with h
    exact hlink target h
  cases depth <;> simp only [resolveWithin, resolveNames_other hdots hother]

theorem resolveWithin_link {target : String} {there : Location} (hdots : name ≠ "..")
    (hlink : tree.entry? (here ++ [name]) = some (.link target)) (hactive : here ++ [name] ∉ active)
    (hthere : tree.resolveWithin depth ((here ++ [name]) :: active)
      (targetStart here (Path.ofString target)) (Path.ofString target).names = .ok there) :
    tree.resolveWithin (depth + 1) active here (name :: rest) =
      tree.resolveWithin (depth + 1) active there rest := by
  rw [resolveWithin, resolveNames_link hdots hlink, if_neg (by simpa using hactive), hthere]

/-! ### Links that are being resolved -/

/-- Links that are being resolved, with the depth that is left for others inside them. They are
distinct entries, and none of them leads anywhere through so few links. -/
structure Pending (tree : FileTree) (links depth : Nat) (active : List Location) : Prop where
  distinct : active.Nodup
  listed : active ⊆ tree.entries.map (·.1)
  depth : active.length + depth = tree.entries.length + 1
  beyond : ∀ here name, here ++ [name] ∈ active → ∀ place entry,
    ¬Leads tree true links here [name] (.entry place entry)

namespace Pending

theorem nil : tree.Pending links (tree.entries.length + 1) [] :=
  ⟨List.nodup_nil, List.nil_subset _, Nat.zero_add _, by simp⟩

theorem mono {fewer : Nat} (h : tree.Pending links depth active) (hfewer : fewer ≤ links) :
    tree.Pending fewer depth active :=
  ⟨h.distinct, h.listed, h.depth, fun here name hmem place entry hleads =>
    h.beyond here name hmem place entry (hleads.mono hfewer)⟩

theorem depth_pos (h : tree.Pending links depth active) : 0 < depth := by
  have hlength := (List.subperm_of_subset h.distinct h.listed).length_le
  rw [List.length_map] at hlength
  have := h.depth
  omega

theorem not_mem (h : tree.Pending links depth active)
    (hleads : Leads tree true links here [name] (.entry place entry)) : here ++ [name] ∉ active :=
  fun hmem => h.beyond here name hmem place entry hleads

theorem cons {target : String} (h : tree.Pending links (depth + 1) active)
    (hlink : tree.entry? (here ++ [name]) = some (.link target)) (hmem : here ++ [name] ∉ active)
    (hbeyond : ∀ place entry, ¬Leads tree true links here [name] (.entry place entry)) :
    tree.Pending links depth ((here ++ [name]) :: active) := by
  have hlisted := (exists_entry?_iff (by simp)).mp ⟨_, hlink⟩
  refine ⟨List.nodup_cons.mpr ⟨hmem, h.distinct⟩, List.cons_subset.mpr ⟨hlisted, h.listed⟩, ?_, ?_⟩
  · have := h.depth
    rw [List.length_cons]
    omega
  · intro here' name' hmem'
    rcases List.mem_cons.mp hmem' with hsame | hmem'
    · obtain ⟨rfl, hname⟩ := List.append_inj' hsame rfl
      injection hname with hname
      exact hname ▸ hbeyond
    · exact h.beyond here' name' hmem'

end Pending

/-- A link that leads somewhere does so through a least number of links, of which its target needs
one less. -/
theorem exists_least {target : String} {there : Location} {other : Entry} (hdots : name ≠ "..")
    (hlink : tree.entry? (here ++ [name]) = some (.link target))
    (h : Leads tree true links here [name] (.entry there other)) :
    ∃ fewer < links, Leads tree true fewer (targetStart here (Path.ofString target))
        (Path.ofString target).names (.entry there other) ∧
      ∀ place entry, ¬Leads tree true fewer here [name] (.entry place entry) := by
  classical
  have hsome : ∃ count, Leads tree true count here [name] (.entry there other) := ⟨links, h⟩
  have hleast := Nat.find_spec hsome
  have hle := Nat.find_min' hsome h
  have hmin := @Nat.find_min _ _ hsome
  generalize Nat.find hsome = least at hleast hle hmin
  cases hleast with
  | dots => exact absurd rfl hdots
  | file _ hentry | directory _ hentry => simp [hlink] at hentry
  | lastLink _ _ hlast => simp at hlast
  | @link fewer _ _ target' _ _ _ hentry _ htarget =>
    rw [hlink] at hentry
    injection hentry with hentry
    injection hentry with hentry
    subst hentry
    rw [List.append_nil] at htarget
    refine ⟨fewer, hle, htarget, fun place entry hleads => ?_⟩
    exact hmin (Nat.lt_succ_self fewer) (hleads.unique h ▸ hleads)

/-- What names lead to is where they resolve to, beside links that lead nowhere so soon. -/
theorem resolveWithin_of_leads (h : Leads tree true links here names (.entry place entry))
    (hpending : tree.Pending links depth active) :
    tree.resolveWithin depth active here names = .ok place := by
  -- The outer induction is on the links still to be followed, the inner one on the names.
  induction links using Nat.strong_induction_on
    generalizing depth active here names place entry with
  | _ links ihLinks =>
  induction names generalizing here with
  | nil =>
    cases h
    exact resolveWithin_nil
  | cons name rest ihNames =>
    by_cases hdots : name = ".."
    · subst hdots
      cases h with
      | dots h =>
        rw [resolveWithin_dots]
        exact ihNames h
      | file hdots | directory hdots | lastLink hdots | link hdots => exact absurd rfl hdots
    · have hwhole := h
      cases h with
      | dots => exact absurd rfl hdots
      | file _ hentry => rw [resolveWithin_other hdots hentry (by simp), resolveWithin_nil]
      | directory _ hentry h =>
        rw [resolveWithin_other hdots hentry (by simp)]
        exact ihNames h
      | lastLink _ _ hlast => simp at hlast
      | link _ hentry =>
        obtain ⟨there, other, hfirst, hrest⟩ := hwhole.uncons
        obtain ⟨least, hlt, htarget, hbeyond⟩ := exists_least hdots hentry hfirst
        obtain ⟨depth, rfl⟩ := Nat.exists_eq_add_one.mpr hpending.depth_pos
        have hmem := hpending.not_mem hfirst
        have hthere := ihLinks least hlt htarget
          ((hpending.mono hlt.le).cons hentry hmem hbeyond)
        rw [resolveWithin_link hdots hentry hmem hthere]
        rcases hrest with ⟨rfl, rfl⟩ | hrest
        · exact resolveWithin_nil
        · exact ihNames hrest

end FileTree

namespace Files

open FileTree

variable {files : Files} {path : Path} {place : Location} {entry : Entry}

/-- Files as a machine has them: every entry stands in a directory, no name holds the null
character, and the working directory is there. -/
structure Sound (files : Files) : Prop where
  grounded : files.tree.Grounded
  nullFree : ∀ listed ∈ files.tree.entries, (Path.absolute listed.1).hasNull = false
  workingDirectory : files.tree.entry? files.workingDirectory = some .directory

instance (files : Files) : Decidable files.Sound :=
  decidable_of_iff (files.tree.Grounded ∧
      (∀ listed ∈ files.tree.entries, (Path.absolute listed.1).hasNull = false) ∧
      files.tree.entry? files.workingDirectory = some .directory)
    ⟨fun h => ⟨h.1, h.2.1, h.2.2⟩, fun h => ⟨h.grounded, h.nullFree, h.workingDirectory⟩⟩

namespace Sound

theorem hasNull_absolute (h : files.Sound) (hentry : files.tree.entry? place = some entry) :
    (Path.absolute place).hasNull = false := by
  by_cases hplace : place = []
  · subst hplace
    rfl
  · obtain ⟨listed, hlisted, rfl⟩ :=
      List.mem_map.mp ((exists_entry?_iff hplace).mp ⟨entry, hentry⟩)
    exact h.nullFree listed hlisted

/-- The path of a location leads to what stands there. -/
theorem find_absolute (h : files.Sound) (hentry : files.tree.entry? place = some entry)
    (hlink : ∀ target, entry ≠ .link target) :
    files.find (.absolute place) = .ok (.entry place entry) := by
  have hroot : files.tree.entry? [] = some .directory := rfl
  exact find_eq_ok_iff.mpr ⟨h.hasNull_absolute hentry,
    h.grounded.leads hroot (h.grounded.not_dots hentry) hentry hlink⟩

theorem stands_of_find (h : files.Sound) (hfind : files.find path = .ok (.entry place entry)) :
    files.tree.entry? place = some entry ∧ ∀ target, entry ≠ .link target :=
  h.grounded.stands (entry?_targetStart h.workingDirectory path) (find_eq_ok_iff.mp hfind).2

/-- A path that leads to an entry resolves to its location. -/
theorem resolve_of_find (h : files.Sound) (hfind : files.find path = .ok (.entry place entry)) :
    files.resolve path = .ok (.absolute place) := by
  obtain ⟨hnull, hleads⟩ := find_eq_ok_iff.mp hfind
  obtain ⟨hentry, hlink⟩ := h.stands_of_find hfind
  have hplace : files.tree.resolve files.workingDirectory path = .ok place :=
    resolveWithin_of_leads hleads .nil
  have hagain : files.tree.find files.workingDirectory (.absolute place) =
      .ok (.entry place entry) :=
    (find_eq_ok_iff.mp (h.find_absolute hentry hlink)).2.follow
  have hstranded := isStranded_of_directory h.workingDirectory path
  simp only [Files.resolve, hnull, hstranded, hplace, hagain, if_neg, Bool.false_eq_true,
    not_false_eq_true]

theorem resolve_absolute (h : files.Sound) (hentry : files.tree.entry? place = some entry)
    (hlink : ∀ target, entry ≠ .link target) :
    files.resolve (.absolute place) = .ok (.absolute place) :=
  h.resolve_of_find (h.find_absolute hentry hlink)

end Sound

end Files

end SdkCatalog
