import SdkCatalog.Catalog.Basic
import SdkCatalog.Proofs.Session

/-! Written catalogs: a directory holds each catalog in a file of its own, and writing the same
catalogs again changes nothing. -/

namespace SdkCatalog.Catalogs

open Files

variable {catalogs : Catalogs} {directory : Path} {fileName : String} {records : List Json.Members}
  {before after : Session}

theorem single_interfacesFile : Path.Single interfacesFile := ⟨by decide, by decide⟩

theorem single_eventsFile : Path.Single eventsFile := ⟨by decide, by decide⟩

theorem single_messageTypesFile : Path.Single messageTypesFile := ⟨by decide, by decide⟩

/-- The directory at a place holds a catalog in the file of a name. -/
structure Holds (files : Files) (directory : Path) (place : Location) (fileName : String)
    (records : List Json.Members) : Prop where
  directory : files.find directory = .ok (.entry place .directory)
  written : ∃ text, text? records = some text ∧
    files.tree.entry? (place ++ [fileName]) = some (.file (Utf8.encode text.toList))

theorem Holds.place_eq {files : Files} {place other : Location} {otherName : String}
    {others : List Json.Members} (h : Holds files directory place fileName records)
    (hother : Holds files directory other otherName others) : place = other := by
  have := h.directory.symm.trans hother.directory
  injection this with this
  injection this

theorem Holds.find_child {files : Files} {place : Location} {content : List UInt8}
    (hname : Path.Single fileName) (hnull : fileName.toList.contains (Char.ofNat 0) = false)
    (h : Holds files directory place fileName records)
    (hentry : files.tree.entry? (place ++ [fileName]) = some (.file content)) :
    files.find (directory.child fileName) =
      .ok (.entry (place ++ [fileName]) (.file content)) := by
  obtain ⟨left, hleft⟩ := follow_child hname h.directory
  rw [find_eq_ok_iff, ← FileTree.follow_eq_ok_iff, hleft, Path.hasNull_child hname,
    (find_eq_ok_iff.mp h.directory).1, hnull, FileTree.follow_file hname.not_dots hentry]
  exact ⟨rfl, rfl⟩

theorem run_writeOne_ok_iff {target : Path} :
    (writeOne directory fileName records).run.run before = (.ok target, after) ↔
      ∃ made text files, before.files.ensureDirectory directory = (.ok (), made) ∧
        text? records = some text ∧
        made.write (directory.child fileName) (Utf8.encode text.toList) = .ok files ∧
        target = directory.child fileName ∧ after = { before with files } := by
  constructor
  · intro h
    obtain ⟨_, between, hensure, h⟩ := Action.run_bind_ok_iff.mp h
    obtain ⟨made, hmade, rfl⟩ := Action.run_ensureDirectory_ok_iff.mp hensure
    simp only at h
    split at h
    · injection h with h
      injection h
    · next text htext =>
      obtain ⟨_, between, hchange, h⟩ := Action.run_bind_ok_iff.mp h
      obtain ⟨files, hwrite, rfl⟩ := Action.run_change_ok_iff.mp hchange
      rw [Action.run_pure] at h
      injection h with htarget hafter
      injection htarget with htarget
      exact ⟨made, text, files, hmade, htext, hwrite, htarget.symm, hafter.symm⟩
  · rintro ⟨made, text, files, hmade, htext, hwrite, rfl, rfl⟩
    refine Action.run_bind_ok_iff.mpr ⟨(), { before with files := made },
      Action.run_ensureDirectory_ok_iff.mpr ⟨made, hmade, rfl⟩, ?_⟩
    simp only [htext]
    exact Action.run_bind_ok_iff.mpr ⟨(), { before with files },
      Action.run_change_ok_iff.mpr ⟨files, hwrite, rfl⟩, rfl⟩

theorem grows_writeOne {target : Path}
    (h : (writeOne directory fileName records).run.run before = (.ok target, after)) :
    before.files.Grows after.files := by
  obtain ⟨made, text, files, hmade, _, hwrite, _, rfl⟩ := run_writeOne_ok_iff.mp h
  have hgrows := grows_ensureDirectory before.files directory
  rw [hmade] at hgrows
  exact hgrows.trans (write_spec hwrite).1

theorem holds_of_writeOne {target : Path} (hname : Path.Single fileName)
    (h : (writeOne directory fileName records).run.run before = (.ok target, after))
    (hlink : after.files.isLink (directory.child fileName) = false) :
    ∃ place, Holds after.files directory place fileName records := by
  obtain ⟨made, text, files, hmade, htext, hwrite, _, rfl⟩ := run_writeOne_ok_iff.mp h
  obtain ⟨place, hplace⟩ := isDirectory_iff.mp (isDirectory_of_ensureDirectory hmade)
  obtain ⟨hopen, rfl⟩ :=
    write_child hname hplace hwrite ((write_spec hwrite).1.not_isLink hlink)
  exact ⟨place, (write_spec hwrite).1.find_directory hplace,
    text, htext, FileTree.entry?_put_same hopen.ne_nil⟩

theorem Holds.of_writeOne {other : String} {others : List Json.Members} {place : Location}
    {target : Path} (hother : Path.Single other) (hne : fileName ≠ other)
    (hholds : Holds before.files directory place fileName records)
    (h : (writeOne directory other others).run.run before = (.ok target, after))
    (hlink : after.files.isLink (directory.child other) = false) :
    Holds after.files directory place fileName records := by
  obtain ⟨made, text, files, hmade, htext, hwrite, _, rfl⟩ := run_writeOne_ok_iff.mp h
  rw [ensureDirectory_of_isDirectory (isDirectory_iff.mpr ⟨place, hholds.directory⟩)] at hmade
  injection hmade with _ hmade
  subst hmade
  obtain ⟨hopen, rfl⟩ :=
    write_child hother hholds.directory hwrite ((write_spec hwrite).1.not_isLink hlink)
  obtain ⟨old, hold, hentry⟩ := hholds.written
  refine ⟨(write_spec hwrite).1.find_directory hholds.directory, old, hold, ?_⟩
  have hplace : place ++ [fileName] ≠ place ++ [other] := by simpa using hne
  rw [put, FileTree.entry?_put_other hplace, hentry]

theorem Holds.run_writeOne {place : Location} (hname : Path.Single fileName)
    (hnull : fileName.toList.contains (Char.ofNat 0) = false)
    (h : Holds before.files directory place fileName records) :
    (writeOne directory fileName records).run.run before =
      (.ok (directory.child fileName), before) := by
  obtain ⟨text, htext, hentry⟩ := h.written
  have hfound := h.find_child hname hnull hentry
  refine run_writeOne_ok_iff.mpr ⟨before.files, text, before.files,
    ensureDirectory_of_isDirectory (isDirectory_iff.mpr ⟨place, h.directory⟩), htext, ?_, rfl, rfl⟩
  rw [Files.write, fileLocation, hfound]
  simp only [Except.map, put, FileTree.put_of_entry? hentry (by simp)]

/-! ### The three catalogs -/

/-- A directory holds three catalogs, each in the file of its name. -/
structure HoldsAll (files : Files) (directory : Path) (place : Location) (catalogs : Catalogs) :
    Prop where
  interfaces : Holds files directory place interfacesFile catalogs.interfaces
  events : Holds files directory place eventsFile catalogs.events
  messageTypes : Holds files directory place messageTypesFile catalogs.messageTypes

def fileNames : List String :=
  [interfacesFile, eventsFile, messageTypesFile]

theorem single_of_mem_fileNames (h : fileName ∈ fileNames) : Path.Single fileName := by
  simp only [fileNames, List.mem_cons, List.not_mem_nil, or_false] at h
  rcases h with rfl | rfl | rfl
  · exact single_interfacesFile
  · exact single_eventsFile
  · exact single_messageTypesFile

/-- The names and the paths of the files of three catalogs. -/
def artifacts (directory : Path) : List (String × Path) :=
  fileNames.map fun name => (name, directory.child name)

theorem run_write_ok_iff {written : List (String × Path)} :
    (catalogs.write directory).run.run before = (.ok written, after) ↔
      ∃ first second,
        (writeOne directory interfacesFile catalogs.interfaces).run.run before =
          (.ok (directory.child interfacesFile), first) ∧
        (writeOne directory eventsFile catalogs.events).run.run first =
          (.ok (directory.child eventsFile), second) ∧
        (writeOne directory messageTypesFile catalogs.messageTypes).run.run second =
          (.ok (directory.child messageTypesFile), after) ∧
        written = artifacts directory := by
  constructor
  · intro h
    obtain ⟨interfaces, first, hfirst, h⟩ := Action.run_bind_ok_iff.mp h
    obtain ⟨events, second, hsecond, h⟩ := Action.run_bind_ok_iff.mp h
    obtain ⟨messageTypes, third, hthird, h⟩ := Action.run_bind_ok_iff.mp h
    rw [Action.run_pure] at h
    injection h with hwritten hafter
    injection hwritten with hwritten
    obtain ⟨_, _, _, _, _, _, rfl, _⟩ := run_writeOne_ok_iff.mp hfirst
    obtain ⟨_, _, _, _, _, _, rfl, _⟩ := run_writeOne_ok_iff.mp hsecond
    obtain ⟨_, _, _, _, _, _, rfl, _⟩ := run_writeOne_ok_iff.mp hthird
    exact ⟨first, second, hfirst, hsecond, hafter ▸ hthird, hwritten.symm⟩
  · rintro ⟨first, second, hfirst, hsecond, hthird, rfl⟩
    exact Action.run_bind_ok_iff.mpr ⟨_, first, hfirst, Action.run_bind_ok_iff.mpr
      ⟨_, second, hsecond, Action.run_bind_ok_iff.mpr ⟨_, after, hthird, rfl⟩⟩⟩

theorem journal_of_write {written : List (String × Path)}
    (h : (catalogs.write directory).run.run before = (.ok written, after)) :
    after.journal = before.journal := by
  obtain ⟨first, second, hfirst, hsecond, hthird, -⟩ := run_write_ok_iff.mp h
  obtain ⟨_, _, _, _, _, _, _, rfl⟩ := run_writeOne_ok_iff.mp hfirst
  obtain ⟨_, _, _, _, _, _, _, rfl⟩ := run_writeOne_ok_iff.mp hsecond
  obtain ⟨_, _, _, _, _, _, _, rfl⟩ := run_writeOne_ok_iff.mp hthird
  rfl

theorem grows_write {written : List (String × Path)}
    (h : (catalogs.write directory).run.run before = (.ok written, after)) :
    before.files.Grows after.files := by
  obtain ⟨first, second, hfirst, hsecond, hthird, -⟩ := run_write_ok_iff.mp h
  exact ((grows_writeOne hfirst).trans (grows_writeOne hsecond)).trans (grows_writeOne hthird)

/-- Written catalogs are held by their directory, if none of their files is a link. -/
theorem holdsAll_of_write {written : List (String × Path)}
    (h : (catalogs.write directory).run.run before = (.ok written, after))
    (hlinks : ∀ artifact ∈ written, after.files.isLink artifact.2 = false) :
    ∃ place, HoldsAll after.files directory place catalogs := by
  obtain ⟨first, second, hfirst, hsecond, hthird, rfl⟩ := run_write_ok_iff.mp h
  simp only [artifacts, fileNames, List.map_cons, List.map_nil, List.forall_mem_cons] at hlinks
  obtain ⟨hlink, hlink', hlink'', -⟩ := hlinks
  have hgrows := grows_writeOne hthird
  have hgrows' := (grows_writeOne hsecond).trans hgrows
  obtain ⟨place, hinterfaces⟩ := holds_of_writeOne single_interfacesFile hfirst
    (hgrows'.not_isLink hlink)
  obtain ⟨place', hevents⟩ := holds_of_writeOne single_eventsFile hsecond (hgrows.not_isLink hlink')
  obtain ⟨place'', hmessageTypes⟩ := holds_of_writeOne single_messageTypesFile hthird hlink''
  have hinterfaces := (hinterfaces.of_writeOne single_eventsFile (by decide) hsecond
    (hgrows.not_isLink hlink')).of_writeOne single_messageTypesFile (by decide) hthird hlink''
  have hevents := hevents.of_writeOne single_messageTypesFile (by decide) hthird hlink''
  obtain rfl := hinterfaces.place_eq hevents
  obtain rfl := hinterfaces.place_eq hmessageTypes
  exact ⟨place, hinterfaces, hevents, hmessageTypes⟩

/-- Writing catalogs that are held already changes nothing. -/
theorem HoldsAll.run_write {place : Location}
    (h : HoldsAll before.files directory place catalogs) :
    (catalogs.write directory).run.run before = (.ok (artifacts directory), before) :=
  run_write_ok_iff.mpr ⟨before, before,
    h.interfaces.run_writeOne single_interfacesFile (by decide),
    h.events.run_writeOne single_eventsFile (by decide),
    h.messageTypes.run_writeOne single_messageTypesFile (by decide), rfl⟩

/-! ### Log files -/

theorem Holds.of_sameBut {files later : Files} {places : List Location} {place : Location}
    (hname : Path.Single fileName) (hnull : fileName.toList.contains (Char.ofNat 0) = false)
    (h : Holds files directory place fileName records) (hsame : files.SameBut places later)
    (havoids : later.Avoids places (directory.child fileName)) :
    Holds later directory place fileName records := by
  obtain ⟨text, htext, hentry⟩ := h.written
  obtain ⟨new, hnew⟩ := hsame.find_file (h.find_child hname hnull hentry)
  exact ⟨hsame.find_directory h.directory, text, htext,
    (hsame.tree.other _ (havoids _ _ hnew)).trans hentry⟩

theorem HoldsAll.of_sameBut {files later : Files} {places : List Location} {place : Location}
    (h : HoldsAll files directory place catalogs) (hsame : files.SameBut places later)
    (havoids : ∀ artifact ∈ artifacts directory, later.Avoids places artifact.2) :
    HoldsAll later directory place catalogs := by
  simp only [artifacts, fileNames, List.map_cons, List.map_nil, List.forall_mem_cons] at havoids
  obtain ⟨hinterfaces, hevents, hmessageTypes, -⟩ := havoids
  exact ⟨h.interfaces.of_sameBut single_interfacesFile (by decide) hsame hinterfaces,
    h.events.of_sameBut single_eventsFile (by decide) hsame hevents,
    h.messageTypes.of_sameBut single_messageTypesFile (by decide) hsame hmessageTypes⟩

end SdkCatalog.Catalogs
