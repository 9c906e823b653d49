import SdkCatalog.Proofs.Catalog.Writer

/-! Writing that may stop halfway: whatever the outcome, some of the catalogs are written, each in
full, and nothing else changes but for directories that are made on the way. -/

namespace SdkCatalog.Catalogs

open Files SdkCatalog.Action

variable {directory : Path} {place : Location} {fileName : String} {records : List Json.Members}
  {before after : Session} {failure : Failure}

/-! ### The parts of a run -/

/-- The name of each catalog's file with the records that go there, in the order of writing. -/
def parts (catalogs : Catalogs) : List (String × List Json.Members) :=
  [(interfacesFile, catalogs.interfaces), (eventsFile, catalogs.events),
    (messageTypesFile, catalogs.messageTypes)]

/-- Writes one part, and answers the name and the path of its file. -/
def writePart (directory : Path) (part : String × List Json.Members) : Action (String × Path) := do
  let target ← writeOne directory part.1 part.2
  return (part.1, target)

theorem write_eq_mapM (catalogs : Catalogs) (directory : Path) :
    catalogs.write directory = catalogs.parts.mapM (writePart directory) := by
  simp only [write, parts, writePart, List.mapM_cons, List.mapM_nil, bind_assoc, pure_bind]

/-- A catalog that is not written is not touched: at most its directory is made. -/
theorem run_writeOne_error
    (h : (writeOne directory fileName records).run.run before = (.error failure, after)) :
    after = { before with files := (before.files.ensureDirectory directory).2 } := by
  rcases run_bind_error_iff.mp h with hensure | ⟨_, between, hensure, h⟩
  · rw [run_ensureDirectory] at hensure
    injection hensure with _ hafter
    exact hafter.symm
  · rw [run_ensureDirectory] at hensure
    injection hensure with _ hbetween
    subst hbetween
    simp only at h
    split at h
    · injection h with _ hafter
      exact hafter.symm
    · rcases run_bind_error_iff.mp h with hchange | ⟨_, _, -, h⟩
      · exact run_change_error hchange
      · injection h with h
        injection h

/-- How a run ends before the given rest of its parts: it answers if no part is left, and else it
fails with the first of them. -/
def StopsBefore {α : Type} (directory : Path) (rest : List (String × List Json.Members))
    (after : Session) : Except Failure α → Prop
  | .ok _ => rest = []
  | .error failure => ∃ part others between, rest = part :: others ∧
      (writeOne directory part.1 part.2).run.run between = (.error failure, after)

theorem StopsBefore.of_mapM {others rest : List (String × List Json.Members)} {later : Session}
    {answer : String × Path} {last outcome : Except Failure (List (String × Path))}
    (h : StopsBefore directory rest later last)
    (hothers : (others.mapM (writePart directory)).run.run before = (last, later))
    (hrun : (others.mapM (writePart directory) >>= fun answers =>
      pure (answer :: answers)).run.run before = (outcome, after)) :
    later = after ∧ StopsBefore directory rest after outcome := by
  cases last with
  | ok answers =>
    rw [run_bind_of_ok hothers, run_pure] at hrun
    injection hrun with houtcome hafter
    subst houtcome hafter
    exact ⟨rfl, h⟩
  | error failure =>
    rw [run_bind_of_error hothers] at hrun
    injection hrun with houtcome hafter
    subst houtcome hafter
    exact ⟨rfl, h⟩

/-- Some parts are in their files, each in full, and everywhere else stands what stood there, or a
directory that was made on the way where nothing stood. -/
structure Wrote (directory : Path) (place : Location) (written : List (String × List Json.Members))
    (files later : Files) : Prop where
  held : ∀ part ∈ written, Holds later directory place part.1 part.2
  kept : ∀ other, (∀ part ∈ written, other ≠ place ++ [part.1]) → KeptAt directory files later other

theorem Wrote.nil {files made : Files} (h : Made directory files made) :
    Wrote directory place [] files made :=
  ⟨by simp, fun other _ => h other⟩

/-! ### Writing into a directory that is there -/

/-- One part is written, and then as many of the others as are. -/
theorem Wrote.cons {part : String × List Json.Members} {text : String}
    {written : List (String × List Json.Members)} {files later : Files}
    (hname : part.1 ∉ written.map (·.1)) (htext : text? part.2 = some text)
    (hdirectory : later.find directory = .ok (.entry place .directory))
    (h : Wrote directory place written
      (files.put (place ++ [part.1]) (.file (Utf8.encode text.toList))) later) :
    Wrote directory place (part :: written) files later := by
  have hother : ∀ other ∈ written, place ++ [part.1] ≠ place ++ [other.1] := by
    intro other hmem heq
    have hsame : part.1 = other.1 := by simpa using heq
    exact hname (hsame ▸ List.mem_map_of_mem hmem)
  constructor
  · intro other hmem
    rcases List.mem_cons.mp hmem with rfl | hmem
    · exact ⟨hdirectory, text, htext,
        (h.kept _ hother).of_some (FileTree.entry?_put_same (by simp))⟩
    · exact h.held other hmem
  · intro other hne
    have hfirst : other ≠ place ++ [part.1] := hne part List.mem_cons_self
    have hkept := h.kept other fun one hmem => hne one (List.mem_cons_of_mem _ hmem)
    rwa [KeptAt, put, FileTree.entry?_put_other hfirst] at hkept

theorem isLink_child_put {files : Files} {name : String} {content : List UInt8}
    (hname : Path.Single fileName)
    (hdirectory : files.find directory = .ok (.entry place .directory))
    (hopen : files.tree.Open (place ++ [name])) (hne : fileName ≠ name) :
    (files.put (place ++ [name]) (.file content)).isLink (directory.child fileName) =
      files.isLink (directory.child fileName) := by
  have hgrows : files.Grows (files.put (place ++ [name]) (.file content)) := .file .refl hopen
  have hplace : place ++ [fileName] ≠ place ++ [name] := by simpa using hne
  rw [Bool.eq_iff_iff, isLink_child hname (hgrows.find_directory hdirectory),
    isLink_child hname hdirectory, put, FileTree.entry?_put_other hplace]

/-- In a directory that is there a part is written in full, or nothing changes. -/
theorem run_writePart_cases {part : String × List Json.Members}
    {outcome : Except Failure (String × Path)} (hsingle : Path.Single part.1)
    (hdirectory : before.files.find directory = .ok (.entry place .directory))
    (hlink : before.files.isLink (directory.child part.1) = false)
    (hrun : (writePart directory part).run.run before = (outcome, after)) :
    (∃ failure, outcome = .error failure ∧ after = before ∧
      (writeOne directory part.1 part.2).run.run before = (.error failure, before)) ∨
    ∃ answer text, outcome = .ok answer ∧ text? part.2 = some text ∧
      before.files.tree.Open (place ++ [part.1]) ∧
      after = { before with
        files := before.files.put (place ++ [part.1]) (.file (Utf8.encode text.toList)) } := by
  have hthere := ensureDirectory_of_isDirectory (isDirectory_iff.mpr ⟨place, hdirectory⟩)
  cases outcome with
  | error failure =>
    rcases run_bind_error_iff.mp hrun with hone | ⟨_, _, -, hpure⟩
    · have hafter : after = before := by
        rw [run_writeOne_error hone, hthere]
      exact .inl ⟨failure, rfl, hafter, hafter ▸ hone⟩
    · injection hpure with hpure
      injection hpure
  | ok answer =>
    obtain ⟨target, _, hone, hpure⟩ := run_bind_ok_iff.mp hrun
    rw [run_pure] at hpure
    injection hpure with _ hpure
    subst hpure
    obtain ⟨made, text, files, hmade, htext, hwrite, -, rfl⟩ := run_writeOne_ok_iff.mp hone
    rw [hthere] at hmade
    injection hmade with _ hmade
    subst hmade
    obtain ⟨hopen, rfl⟩ := write_child hsingle hdirectory hwrite hlink
    exact .inr ⟨answer, text, rfl, htext, hopen, rfl⟩

/-- In a directory that is there each part is written in full or not at all, one after another. -/
theorem wrote_of_mapM {parts : List (String × List Json.Members)}
    {outcome : Except Failure (List (String × Path))}
    (hdirectory : before.files.find directory = .ok (.entry place .directory))
    (hsingle : ∀ part ∈ parts, Path.Single part.1) (hnodup : (parts.map (·.1)).Nodup)
    (hlinks : ∀ part ∈ parts, before.files.isLink (directory.child part.1) = false)
    (hrun : (parts.mapM (writePart directory)).run.run before = (outcome, after)) :
    ∃ files written rest, after = { before with files } ∧ parts = written ++ rest ∧
      files.find directory = .ok (.entry place .directory) ∧
      Wrote directory place written before.files files ∧
      StopsBefore directory rest after outcome := by
  induction parts generalizing before after outcome with
  | nil =>
    rw [List.mapM_nil, run_pure] at hrun
    injection hrun with houtcome hafter
    subst houtcome hafter
    exact ⟨before.files, [], [], rfl, rfl, hdirectory, .nil (.refl _ _), rfl⟩
  | cons part others ih =>
    rw [List.mapM_cons] at hrun
    simp only [List.forall_mem_cons] at hsingle hlinks
    rw [List.map_cons, List.nodup_cons] at hnodup
    cases hfirst : (writePart directory part).run.run before with
    | mk first between =>
      rcases run_writePart_cases hsingle.1 hdirectory hlinks.1 hfirst with
        ⟨failure, rfl, rfl, hone⟩ | ⟨answer, text, rfl, htext, hopen, rfl⟩
      · rw [run_bind_of_error hfirst] at hrun
        injection hrun with houtcome hafter
        subst houtcome hafter
        exact ⟨between.files, [], part :: others, rfl, rfl, hdirectory, .nil (.refl _ _),
          part, others, between, rfl, hone⟩
      · rw [run_bind_of_ok hfirst] at hrun
        have hgrows : before.files.Grows (before.files.put (place ++ [part.1])
            (.file (Utf8.encode text.toList))) := .file .refl hopen
        have hthere := hgrows.find_directory hdirectory
        have hothers : ∀ other ∈ others, (before.files.put (place ++ [part.1])
            (.file (Utf8.encode text.toList))).isLink (directory.child other.1) = false := by
          intro other hmem
          have hne : other.1 ≠ part.1 := fun heq => hnodup.1 (heq ▸ List.mem_map_of_mem hmem)
          rw [isLink_child_put (hsingle.2 other hmem) hdirectory hopen hne]
          exact hlinks.2 other hmem
        cases hrest : (others.mapM (writePart directory)).run.run { before with
            files := before.files.put (place ++ [part.1]) (.file (Utf8.encode text.toList)) } with
        | mk last later =>
          obtain ⟨files, written, rest, hlater, hsplit, hfound, hwrote, hstops⟩ :=
            ih hthere hsingle.2 hnodup.2 hothers hrest
          have hname : part.1 ∉ written.map (·.1) := by
            intro hmem
            rw [hsplit, List.map_append, List.mem_append, not_or] at hnodup
            exact hnodup.1.1 hmem
          obtain ⟨rfl, hends⟩ := hstops.of_mapM hrest hrun
          exact ⟨files, part :: written, rest, hlater, by rw [hsplit, List.cons_append], hfound,
            hwrote.cons hname htext hfound, hends⟩

/-! ### Writing the catalogs -/

theorem Wrote.of_made {written : List (String × List Json.Members)} {files made later : Files}
    (hmade : Made directory files made) (h : Wrote directory place written made later) :
    Wrote directory place written files later :=
  ⟨h.held, fun other hne => (hmade other).trans (h.kept other hne)⟩

/-- Files of a name that no written part has are as they were, if the path has no such name. -/
theorem Wrote.unwritten {written : List (String × List Json.Members)} {files later : Files}
    (h : Wrote directory place written files later) (hname : fileName ∉ written.map (·.1))
    (hpath : fileName ∉ directory.names) (above : Location) :
    later.tree.entry? (above ++ [fileName]) = files.tree.entry? (above ++ [fileName]) := by
  have hother : ∀ part ∈ written, above ++ [fileName] ≠ place ++ [part.1] := by
    intro part hmem heq
    have hsame : above = place ∧ fileName = part.1 := by simpa using heq
    exact hname (hsame.2 ▸ List.mem_map_of_mem hmem)
  rcases h.kept _ hother with hkept | ⟨-, -, name, hmem, hlast⟩
  · exact hkept
  · rw [List.getLast?_concat] at hlast
    injection hlast with hlast
    exact absurd (hlast ▸ hmem) hpath

/-- Making the directory first changes nothing for a run that writes into it. -/
theorem run_writePart_made {made : Files} (part : String × List Json.Members)
    (hmade : before.files.ensureDirectory directory = (.ok (), made)) :
    (writePart directory part).run.run before =
      (writePart directory part).run.run { before with files := made } := by
  have hagain := ensureDirectory_of_isDirectory (isDirectory_of_ensureDirectory hmade)
  refine run_bind_congr ?_
  rw [writeOne, run_bind_of_ok (run_ensureDirectory.trans (by rw [hmade]; rfl)),
    run_bind_of_ok (run_ensureDirectory.trans (by rw [hagain]; rfl))]

theorem run_writePart_not_made {made : Files} {fault : FileFault}
    (part : String × List Json.Members)
    (hmade : before.files.ensureDirectory directory = (.error fault, made)) :
    ∃ failure, (writeOne directory part.1 part.2).run.run before =
      (.error failure, { before with files := made }) :=
  ⟨_, run_bind_of_error (run_ensureDirectory.trans (by rw [hmade]; rfl))⟩

theorem nodup_parts (catalogs : Catalogs) : (catalogs.parts.map (·.1)).Nodup :=
  show fileNames.Nodup by decide

/-- Whatever the outcome, catalogs are written one after another up to where the run stops, each in
full. Nothing else changes, but that directories are made on the way where nothing stood: not at
the file of a catalog that is not written, unless the path of the directory has its name. -/
theorem wrote_of_write {catalogs : Catalogs} {outcome : Except Failure (List (String × Path))}
    (hlinks : ∀ name ∈ fileNames,
      (before.files.ensureDirectory directory).2.isLink (directory.child name) = false)
    (hrun : (catalogs.write directory).run.run before = (outcome, after)) :
    ∃ files place written rest, after = { before with files } ∧ catalogs.parts = written ++ rest ∧
      StopsBefore directory rest after outcome ∧
      Wrote directory place written before.files files ∧
      ∀ part ∈ rest, part.1 ∉ directory.names → ∀ above,
        files.tree.entry? (above ++ [part.1]) = before.files.tree.entry? (above ++ [part.1]) := by
  rw [write_eq_mapM] at hrun
  suffices h : ∃ files place written rest, after = { before with files } ∧
      catalogs.parts = written ++ rest ∧ StopsBefore directory rest after outcome ∧
      Wrote directory place written before.files files by
    obtain ⟨files, place, written, rest, hafter, hsplit, hstops, hwrote⟩ := h
    refine ⟨files, place, written, rest, hafter, hsplit, hstops, hwrote, fun part hpart => ?_⟩
    have hnodup := nodup_parts catalogs
    rw [hsplit, List.map_append, List.nodup_append] at hnodup
    exact hwrote.unwritten fun hmem =>
      hnodup.2.2 _ hmem _ (List.mem_map_of_mem hpart) rfl
  have hmade := made_ensureDirectory before.files directory
  cases hensure : before.files.ensureDirectory directory with
  | mk made? made =>
    rw [hensure] at hmade hlinks
    cases made? with
    | error fault =>
      obtain ⟨failure, hone⟩ := run_writePart_not_made
        (interfacesFile, catalogs.interfaces) hensure
      have hfirst : (writePart directory (interfacesFile, catalogs.interfaces)).run.run before =
          (.error failure, { before with files := made }) := run_bind_of_error hone
      rw [parts, List.mapM_cons, run_bind_of_error hfirst] at hrun
      injection hrun with houtcome hafter
      subst houtcome hafter
      exact ⟨made, [], [], catalogs.parts, rfl, rfl, ⟨_, _, before, rfl, hone⟩, .nil hmade⟩
    | ok =>
      obtain ⟨place, hplace⟩ := isDirectory_iff.mp (isDirectory_of_ensureDirectory hensure)
      have hstart : (catalogs.parts.mapM (writePart directory)).run.run before =
          (catalogs.parts.mapM (writePart directory)).run.run { before with files := made } := by
        rw [parts, List.mapM_cons]
        exact run_bind_congr (run_writePart_made _ hensure)
      rw [hstart] at hrun
      have hnames : ∀ part ∈ catalogs.parts, part.1 ∈ fileNames :=
        fun part hmem => show part.1 ∈ catalogs.parts.map (·.1) from List.mem_map_of_mem hmem
      obtain ⟨files, written, rest, hafter, hsplit, -, hwrote, hstops⟩ := wrote_of_mapM hplace
        (fun part hmem => single_of_mem_fileNames (hnames part hmem)) (nodup_parts catalogs)
        (fun part hmem => hlinks _ (hnames part hmem)) hrun
      exact ⟨files, place, written, rest, hafter, hsplit, hstops, hwrote.of_made hmade⟩

/-- An event with too long a number is not written, and the events of before stay. -/
theorem wrote_of_write_single :
    let directory := Path.absolute ["docs"]
    let old : Entry := .file (Utf8.encode "[]".toList)
    let before : Session :=
      ⟨⟨⟨[(["docs"], .directory), (["docs", eventsFile], old)], by decide⟩, [], "/"⟩, {}, ""⟩
    let catalogs : Catalogs := ⟨[], [[("n", .number (.int shortestTooLong))]], []⟩
    (∀ name ∈ fileNames,
      (before.files.ensureDirectory directory).2.isLink (directory.child name) = false) ∧
    ∃ after, (catalogs.write directory).run.run before = (.error .numberTooLong, after) ∧
      before.files.tree.entry? ["docs", eventsFile] = some old ∧
      after.files.tree.entry? ["docs", eventsFile] = some old := by
  intro directory old before catalogs
  have hanswer : ((catalogs.write directory).run.run before).1 = .error .numberTooLong := by
    decide +kernel
  have hbefore : (∀ name ∈ fileNames,
      (before.files.ensureDirectory directory).2.isLink (directory.child name) = false) ∧
      before.files.tree.entry? ["docs", eventsFile] = some old ∧
      text? catalogs.events = none ∧ eventsFile ∉ directory.names := by
    decide +kernel
  clear_value before catalogs directory
  obtain ⟨hlinks, hold, htext, hname⟩ := hbefore
  generalize hrun : (catalogs.write directory).run.run before = answer at hanswer
  obtain ⟨outcome, after⟩ := answer
  subst hanswer
  obtain ⟨files, place, written, rest, rfl, hsplit, -, hwrote, hunwritten⟩ :=
    wrote_of_write hlinks hrun
  have hpart : (eventsFile, catalogs.events) ∈ rest := by
    have hmem : (eventsFile, catalogs.events) ∈ written ++ rest := by
      rw [← hsplit]
      simp [parts]
    rcases List.mem_append.mp hmem with hmem | hmem
    · obtain ⟨text, hsome, -⟩ := (hwrote.held _ hmem).written
      simp [htext] at hsome
    · exact hmem
  exact ⟨hlinks, _, rfl, hold, (hunwritten _ hpart hname ["docs"]).trans hold⟩

/-- A path that goes through the name of a catalog's file: on the way a directory is made where the
file would be, and that catalog is not written. -/
theorem file_becomes_directory :
    let directory := Path.ofString "docs/interfaces.json/.."
    let target := directory.child interfacesFile
    let before : Session := ⟨⟨.empty, [], "/"⟩, {}, ""⟩
    let run := (write directory {}).run.run before
    (∀ name ∈ fileNames, before.files.isLink (directory.child name) = false ∧
      run.2.files.isLink (directory.child name) = false) ∧
    run.1 = .error (.artifact target.text (.isDirectory target.text)) ∧
    before.files.entry? target = none ∧ run.2.files.entry? target = some .directory := by
  decide +kernel

end SdkCatalog.Catalogs
