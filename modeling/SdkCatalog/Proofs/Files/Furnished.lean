import SdkCatalog.Proofs.Files.Plain

/-! Files in which a directory is made at a location, with what is missing above it, and furnished
with regular files: which questions about other paths have the same answers. -/

namespace SdkCatalog.Files

open FileTree

variable {files later : Files} {path : Path} {place other : Location} {names : List String}

/-- Later files differ at most in directories made on the way to a location and in regular files
written there under some names. -/
structure Furnished (place : Location) (names : List String) (files later : Files) : Prop where
  entry : ∀ other, later.tree.entry? other = files.tree.entry? other ∨
    (other <+: place ∧ files.tree.entry? other = none ∧
      later.tree.entry? other = some .directory) ∨
    (∃ name ∈ names, other = place ++ [name]) ∧ files.tree.Open other ∧
      ∃ content, later.tree.entry? other = some (.file content)
  workingDirectory : later.workingDirectory = files.workingDirectory
  home : later.home = files.home
  plain : later.Plain

namespace Furnished

theorem refl (h : files.Plain) : Furnished place names files files :=
  ⟨fun _ => .inl rfl, rfl, rfl, h⟩

theorem trans {last : Files} (h : Furnished place names files later)
    (hlast : Furnished place names later last) : Furnished place names files last := by
  refine ⟨fun other => ?_, hlast.workingDirectory.trans h.workingDirectory,
    hlast.home.trans h.home, hlast.plain⟩
  rcases h.entry other with hsame | ⟨habove, hnone, hmade⟩ | ⟨hname, hopen, content, hwritten⟩
  · rw [Open, ← hsame]
    exact hlast.entry other
  · rcases hlast.entry other with hsame | ⟨-, hnone', -⟩ | ⟨-, hopen, -⟩
    · exact .inr (.inl ⟨habove, hnone, hsame.trans hmade⟩)
    · simp [hmade] at hnone'
    · exact absurd rfl (hopen.ne_of_directory hmade)
  · rcases hlast.entry other with hsame | ⟨-, hnone, -⟩ | ⟨-, -, content', hwritten'⟩
    · exact .inr (.inr ⟨hname, hopen, content, hsame.trans hwritten⟩)
    · simp [hwritten] at hnone
    · exact .inr (.inr ⟨hname, hopen, content', hwritten'⟩)

/-! ### Making the directory -/

theorem of_makeDirectory (h : files.Plain) (hdots : ".." ∉ path.names)
    (hplace : files.locate path <+: place) (hmade : files.makeDirectory path = .ok later) :
    Furnished place names files later := by
  obtain ⟨vacant, hvacant, rfl⟩ := makeDirectory_ok hmade
  obtain ⟨rfl, parent, name, hparent, hname, hdirectory⟩ := h.of_find_vacant hdots hvacant
  have hopen := open_of_find_vacant hvacant
  refine ⟨fun other => ?_, rfl, rfl, ?_⟩
  · by_cases hother : other = files.locate path
    · subst hother
      exact .inr (.inl ⟨hplace, (find_eq_ok_iff.mp hvacant).2.stands,
        entry?_put_same hopen.ne_nil⟩)
    · exact .inl (entry?_put_other hother)
  · rw [hparent] at hopen ⊢
    exact h.put hopen hname hdirectory (by simp)

theorem of_ensureLast (h : files.Plain) (hdots : ".." ∉ path.names)
    (hplace : files.locate path <+: place) (hmade : files.ensureLast path = .ok later) :
    Furnished place names files later := by
  rw [ensureLast] at hmade
  split at hmade
  · next made hmakes =>
    injection hmade with hmade
    exact hmade ▸ of_makeDirectory h hdots hplace hmakes
  · split at hmade
    · simp at hmade
    · simp at hmade
    · split at hmade
      · injection hmade with hmade
        exact hmade ▸ refl h
      · simp at hmade

theorem locate_eq (h : Furnished place names files later) (path : Path) :
    later.locate path = files.locate path := by
  rw [locate, locate, h.workingDirectory]

/-- Ensuring a directory makes directories on the way to it at most. -/
theorem of_ensureDirectory (h : files.Plain) (hdots : ".." ∉ path.names)
    (hplace : files.locate path <+: place) :
    Furnished place names files (files.ensureDirectory path).2 := by
  have habove : ∀ path : Path, files.locate path.parent <+: files.locate path :=
    fun path => List.prefix_append_right_inj _ |>.mpr (List.dropLast_prefix _)
  have hdropped : ∀ path : Path, ".." ∉ path.names → ".." ∉ path.parent.names :=
    fun path hdots hmem => hdots (List.dropLast_subset _ hmem)
  fun_induction ensureDirectory files path with
  | case1 path made hmade => exact of_makeDirectory h hdots hplace hmade
  | case3 path _ _ above hparent made hmade _ ih =>
    have hfirst := ih (hdropped _ hdots) ((habove path).trans hplace)
    rw [hparent] at hfirst
    exact hfirst.trans (of_ensureLast hfirst.plain hdots (hfirst.locate_eq path ▸ hplace) hmade)
  | case4 path _ _ above hparent _ _ _ ih =>
    have hfirst := ih (hdropped _ hdots) ((habove path).trans hplace)
    rwa [hparent] at hfirst
  | case5 path _ _ _ _ hparent _ ih =>
    have hfirst := ih (hdropped _ hdots) ((habove path).trans hplace)
    rwa [hparent] at hfirst
  | case2 => exact refl h
  | case6 => exact refl h
  | case7 => exact refl h
  | case8 => exact refl h

/-! ### Writing the files -/

theorem of_write {name : String} {content : List UInt8} (h : files.Plain)
    (hdots : ".." ∉ path.names) (hname : Path.Single name) (hmem : name ∈ names)
    (hdirectory : files.find path = .ok (.entry place .directory))
    (hwrite : files.write (path.child name) content = .ok later) :
    Furnished place names files later := by
  obtain ⟨hopen, rfl⟩ := write_child hname hdirectory hwrite (h.isLink _)
  have hplace := ((h.find_entry_iff hdots).mp hdirectory).2.2
  refine ⟨fun other => ?_, rfl, rfl, h.put hopen hname.not_dots hplace (by simp)⟩
  by_cases hother : other = place ++ [name]
  · subst hother
    exact .inr (.inr ⟨⟨name, hmem, rfl⟩, hopen, content, entry?_put_same hopen.ne_nil⟩)
  · exact .inl (entry?_put_other hother)

/-! ### What stays -/

theorem directory (h : Furnished place names files later)
    (hdirectory : files.tree.entry? other = some .directory) :
    later.tree.entry? other = some .directory := by
  rcases h.entry other with hsame | ⟨-, hnone, -⟩ | ⟨-, hopen, -⟩
  · exact hsame.trans hdirectory
  · simp [hdirectory] at hnone
  · exact absurd rfl (hopen.ne_of_directory hdirectory)

theorem entry?_eq (h : Furnished place names files later) (habove : ¬other <+: place)
    (hother : ∀ name ∈ names, other ≠ place ++ [name]) :
    later.tree.entry? other = files.tree.entry? other := by
  rcases h.entry other with hsame | ⟨hthere, -⟩ | ⟨⟨name, hname, heq⟩, -⟩
  · exact hsame
  · exact absurd hthere habove
  · exact absurd heq (hother name hname)

/-- The regular file at a location that is not written to stays, and none comes there. -/
theorem entry?_file_iff {content : List UInt8} (h : Furnished place names files later)
    (hother : ∀ name ∈ names, other ≠ place ++ [name]) :
    later.tree.entry? other = some (.file content) ↔
      files.tree.entry? other = some (.file content) := by
  rcases h.entry other with hsame | ⟨-, hnone, hmade⟩ | ⟨⟨name, hname, heq⟩, -⟩
  · rw [hsame]
  · simp [hnone, hmade]
  · exact absurd heq (hother name hname)

end Furnished

end SdkCatalog.Files
