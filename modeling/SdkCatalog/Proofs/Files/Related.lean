import SdkCatalog.Proofs.Workspace

/-! Files whose contents are related one by one, as those of two copies of a workspace in which
some sources are spelled in different ways: paths lead to the same places in both. -/

namespace SdkCatalog

namespace FileTree

variable {tree : FileTree} {place : Location} {entry : Entry}

/-- The locations at which a regular file stands. -/
def fileLocations (tree : FileTree) : List Location :=
  (tree.entries.map (·.1)).filter fun place => tree.entry? place matches some (.file _)

theorem mem_fileLocations :
    place ∈ tree.fileLocations ↔ ∃ content, tree.entry? place = some (.file content) := by
  have hmatch : (tree.entry? place matches some (.file _)) = true ↔
      ∃ content, tree.entry? place = some (.file content) := by
    split
    · next content h => exact ⟨fun _ => ⟨content, h⟩, fun _ => rfl⟩
    · next h =>
      exact ⟨fun hfalse => absurd hfalse (by simp), fun ⟨content, hc⟩ => (h content hc).elim⟩
  rw [fileLocations, List.mem_filter, hmatch, and_iff_right_iff_imp]
  rintro ⟨content, hfile⟩
  have hne : place ≠ [] := by
    rintro rfl
    simp [FileTree.entry?] at hfile
  exact (exists_entry?_iff hne).mp ⟨_, hfile⟩

theorem map_fst_putEntry_eq (entries : List (Location × Entry)) :
    (putEntry entries place entry).map (·.1) =
      if place ∈ entries.map (·.1) then entries.map (·.1) else entries.map (·.1) ++ [place] := by
  split
  · next h => exact map_fst_putEntry h
  · next h =>
    induction entries with
    | nil => rfl
    | cons first rest ih =>
      obtain ⟨hfirst, hrest⟩ := not_or.mp (mt List.mem_cons.mpr h)
      rw [putEntry, if_neg (Ne.symm hfirst), List.map_cons, ih hrest]
      rfl

end FileTree

namespace Files

open FileTree

variable {R S : List UInt8 → List UInt8 → Prop} {files later : Files}

/-- Later files are the same but for the contents of regular files, which are related. -/
structure Related (R : List UInt8 → List UInt8 → Prop) (files later : Files) : Prop where
  workingDirectory : later.workingDirectory = files.workingDirectory
  home : later.home = files.home
  locations : later.tree.entries.map (·.1) = files.tree.entries.map (·.1)
  entry : ∀ place, later.tree.entry? place = files.tree.entry? place ∨
    ∃ content new, files.tree.entry? place = some (.file content) ∧
      later.tree.entry? place = some (.file new) ∧ R content new

namespace Related

theorem mono (h : files.Related R later) (hR : ∀ content new, R content new → S content new) :
    files.Related S later where
  workingDirectory := h.workingDirectory
  home := h.home
  locations := h.locations
  entry place := (h.entry place).imp_right fun ⟨content, new, hold, hnew, hrelated⟩ =>
    ⟨content, new, hold, hnew, hR _ _ hrelated⟩

theorem sameBut (h : files.Related R later) : files.SameBut files.tree.fileLocations later where
  workingDirectory := h.workingDirectory
  home := h.home
  tree :=
    { other place hplace := by
        rcases h.entry place with hsame | ⟨content, -, hold, -⟩
        · exact hsame
        · exact absurd (mem_fileLocations.mpr ⟨content, hold⟩) hplace
      before place hplace := mem_fileLocations.mp hplace
      after place hplace := by
        rcases h.entry place with hsame | ⟨-, new, -, hnew, -⟩
        · obtain ⟨content, hcontent⟩ := mem_fileLocations.mp hplace
          exact ⟨content, hsame.trans hcontent⟩
        · exact ⟨new, hnew⟩
      locations := h.locations }

/-- What is read at a path is the same in both, or else the contents of a file that are related. -/
theorem bytes (h : files.Related R later) (path : Path) :
    later.bytes path = files.bytes path ∨
    ∃ content new, files.bytes path = .ok content ∧ later.bytes path = .ok new ∧
      R content new := by
  cases hfound : files.find path with
  | error fault =>
    have hfind := h.sameBut.find path
    rw [hfound] at hfind
    cases hother : later.find path with
    | ok other => simp [hother, Except.map] at hfind
    | error other =>
      rw [hother] at hfind
      injection hfind with hfind
      exact .inl (by rw [Files.bytes, Files.bytes, hfound, hother, hfind])
  | ok found =>
    obtain ⟨other, hother, herase⟩ := h.sameBut.find_ok hfound
    rcases Found.eq_or_file_of_erase_eq herase with rfl | ⟨place, content, new, rfl, rfl⟩
    · exact .inl (by rw [Files.bytes, Files.bytes, hfound, hother])
    · have hold := (find_eq_ok_iff.mp hfound).2.stands
      have hlater := (find_eq_ok_iff.mp hother).2.stands
      simp only [Found.Stands] at hold hlater
      rcases h.entry place with hsame | ⟨before, after, hbefore, hafter, hrelated⟩
      · rw [hsame, hold] at hlater
        injection hlater with hcontent
        exact .inl (by rw [Files.bytes, Files.bytes, hfound, hother, hcontent])
      · refine .inr ⟨content, new, bytes_eq_ok_iff.mpr ⟨place, hfound⟩,
          bytes_eq_ok_iff.mpr ⟨place, hother⟩, ?_⟩
        rw [hold] at hbefore
        rw [hlater] at hafter
        injection hbefore with hbefore
        injection hbefore with hbefore
        injection hafter with hafter
        injection hafter with hafter
        exact hbefore ▸ hafter ▸ hrelated

theorem put {place : Location} {entry new : Entry} (h : files.Related R later)
    (hentry : new = entry ∨ ∃ content other, entry = .file content ∧ new = .file other ∧
      R content other) : (files.put place entry).Related R (later.put place new) where
  workingDirectory := h.workingDirectory
  home := h.home
  locations := by
    simp only [Files.put, FileTree.put, map_fst_putEntry_eq, h.locations]
  entry other := by
    simp only [Files.put]
    by_cases hother : other = place
    · subst hother
      by_cases hroot : other = []
      · subst hroot
        exact .inl (by simp [FileTree.entry?])
      · rw [entry?_put_same hroot, entry?_put_same hroot]
        rcases hentry with rfl | ⟨content, changed, rfl, rfl, hrelated⟩
        · exact .inl rfl
        · exact .inr ⟨content, changed, rfl, rfl, hrelated⟩
    · rw [entry?_put_other hother, entry?_put_other hother]
      exact h.entry other

theorem append {place : Location} {text : List UInt8} (h : files.Related R later)
    (hR : ∀ content new, R content new → R (content ++ text) (new ++ text)) :
    (files.append place text).Related R (later.append place text) := by
  rw [Files.append, Files.append]
  refine h.put ?_
  rw [contentAt, contentAt]
  rcases h.entry place with hsame | ⟨content, new, hold, hnew, hrelated⟩
  · exact .inl (by rw [hsame])
  · rw [hold, hnew]
    exact .inr ⟨_, _, rfl, rfl, hR _ _ hrelated⟩

end Related

end Files

end SdkCatalog
