import SdkCatalog.Command.Run
import SdkCatalog.Proofs.Catalog.Atomicity
import SdkCatalog.Proofs.Catalog.Loading
import SdkCatalog.Proofs.Catalog.View

/-! A command line that generates catalogs ends with a report or with a message. The report is right
about the files it names. It is due exactly when each step of the generation succeeds, and then only
a working directory that has been removed keeps it back. -/

namespace SdkCatalog

open SdkCatalog.Action Session Workspace

variable {before after other : Session} {files : Files} {directory : Path}

theorem Action.exists_run_bind {α β : Type} {action : Action α} {next : α → Action β} {value : α}
    {answer : β} (h : action.run.run before = (.ok value, other))
    (hnext : ∃ after, (next value).run.run other = (.ok answer, after)) :
    ∃ after, (action >>= next).run.run before = (.ok answer, after) :=
  hnext.imp fun _ hrun => (run_bind_of_ok h).trans hrun

/-! ### Written catalogs -/

namespace Catalogs

variable {catalogs : Catalogs} {written : List (String × Path)} {fileName : String}
  {records : List Json.Members}

/-- The files alone decide what writing a catalog does to them. -/
theorem run_writeOne_of_files {target : Path}
    (h : (writeOne directory fileName records).run.run before = (.ok target, after))
    (hfiles : other.files = before.files) :
    (writeOne directory fileName records).run.run other =
      (.ok target, { other with files := after.files }) := by
  obtain ⟨made, text, later, hmade, htext, hwrite, rfl, rfl⟩ := run_writeOne_ok_iff.mp h
  exact run_writeOne_ok_iff.mpr ⟨made, text, later, hfiles ▸ hmade, htext, hwrite, rfl, rfl⟩

theorem run_write_of_files
    (h : (catalogs.write directory).run.run before = (.ok written, after))
    (hfiles : other.files = before.files) :
    (catalogs.write directory).run.run other =
      (.ok written, { other with files := after.files }) := by
  obtain ⟨first, second, hfirst, hsecond, hthird, rfl⟩ := run_write_ok_iff.mp h
  exact run_write_ok_iff.mpr ⟨{ other with files := first.files },
    { other with files := second.files }, run_writeOne_of_files hfirst hfiles,
    run_writeOne_of_files hsecond rfl, run_writeOne_of_files hthird rfl, rfl⟩

/-- Catalogs that are written are held by their files, if none of these was a link. -/
theorem held_of_write (h : (catalogs.write directory).run.run before = (.ok written, after))
    (hlinks : ∀ name ∈ fileNames,
      (before.files.ensureDirectory directory).2.isLink (directory.child name) = false) :
    ∃ place, ∀ part ∈ catalogs.parts, Holds after.files directory place part.1 part.2 := by
  obtain ⟨first, _, hfirst, -⟩ := run_write_ok_iff.mp h
  obtain ⟨made, -, -, hmade, -⟩ := run_writeOne_ok_iff.mp hfirst
  obtain ⟨place, hplace⟩ := Files.isDirectory_iff.mp (Files.isDirectory_of_ensureDirectory hmade)
  rw [hmade] at hlinks
  have hnames : ∀ part ∈ catalogs.parts, part.1 ∈ fileNames :=
    fun part hpart => show part.1 ∈ catalogs.parts.map (·.1) from List.mem_map_of_mem hpart
  have hrun : (catalogs.parts.mapM (writePart directory)).run.run
      { before with files := made } = (.ok written, after) := by
    rw [← h, write_eq_mapM, parts, List.mapM_cons]
    exact (run_bind_congr (run_writePart_made _ hmade)).symm
  obtain ⟨later, done, rest, rfl, hsplit, -, hwrote, hstops⟩ := wrote_of_mapM hplace
    (fun part hpart => single_of_mem_fileNames (hnames part hpart)) (nodup_parts catalogs)
    (fun part hpart => hlinks _ (hnames part hpart)) hrun
  have hdone : catalogs.parts = done := by
    rw [hsplit, show rest = [] from hstops, List.append_nil]
  exact ⟨place, hdone ▸ hwrote.held⟩

theorem spells_of_held {place : Location} (hname : fileName ∈ fileNames)
    (hdistinct : Json.RecordsDistinct records)
    (h : Holds files directory place fileName records) :
    Spells files (directory.child fileName) records := by
  have hnull : ∀ name ∈ fileNames, name.toList.contains (Char.ofNat 0) = false := by decide
  exact spells_of_read (h.read (single_of_mem_fileNames hname) (hnull _ hname) hdistinct)

end Catalogs

/-! ### The steps of a generation -/

namespace Generation

variable {path : Path} {outputDirectory : Option Path} {marker : String} {settings : Settings}
  {generation : Generation}

/-- The directory that the catalogs of a generation go to. -/
def target (outputDirectory : Option Path) (settings : Settings) (root : Path) : Path :=
  outputDirectory.getD (settings.outputPath root)

/-- Each step of a generation succeeds on the files as they are: the root is found, the settings
load, the sources give an extract, and its catalogs are written, which leaves other files. -/
structure Succeeds (files : Files) (path : Path) (outputDirectory : Option Path) (marker : String)
    (settings : Settings) (generation : Generation) (later : Files) : Prop where
  finds : Workspace.root files path marker = .ok generation.root
  loads : Settings.load Settings.reader files generation.root = .ok settings
  extracts : ∃ after, (Extract.ofSettings settings generation.root).run.run { files } =
    (.ok generation.extract, after)
  writes : ∃ after, (generation.extract.catalogs.write
    (target outputDirectory settings generation.root)).run.run { files } =
      (.ok generation.written, after) ∧ after.files = later

theorem logsThere_of_logs_eq_nil (h : before.journal.logs = []) : before.LogsThere :=
  (logsApart_of_logs_eq_nil h []).there

/-- An extraction without log files depends on nothing but the files. -/
theorem run_ofSettings_of_files {root : Path} {extract : Extract}
    (h : (Extract.ofSettings settings root).run.run before = (.ok extract, after))
    (hbefore : before.journal.logs = []) (other : Session) (hother : other.journal.logs = [])
    (hfiles : other.files = before.files) :
    ∃ later, (Extract.ofSettings settings root).run.run other = (.ok extract, later) ∧
      Reported other later := by
  refine (Extract.determined_ofSettings before.files settings root).run_ok
    (shows_viewOf (logsApart_of_logs_eq_nil hbefore _)) h ?_
  rw [← hfiles]
  exact shows_viewOf (logsApart_of_logs_eq_nil hother _)

theorem succeeds_of_run (hlogs : before.journal.logs = [])
    (h : (run path outputDirectory marker).run.run before = (.ok generation, after)) :
    ∃ settings, Succeeds before.files path outputDirectory marker settings generation
      after.files := by
  obtain ⟨settings, first, second, third, hroot, hfirst, hsettings, hextract, hwrite, -, hafter⟩ :=
    steps_of_run (logsThere_of_logs_eq_nil hlogs) h
  have hfirstFiles := hfirst.kept hlogs
  have hfirstLogs := hfirst.logs.trans hlogs
  have hsecond := Extract.onlyReports_ofSettings _ _ _ _ _ hfirst.logsThere hextract
  have hsecondFiles := (hsecond.kept hfirstLogs).trans hfirstFiles
  have hthirdLogs : third.journal.logs = [] := by
    rw [Catalogs.journal_of_write hwrite, hsecond.logs, hfirstLogs]
  rw [hfirstFiles] at hsettings
  obtain ⟨later, hlater, -⟩ := run_ofSettings_of_files hextract hfirstLogs
    { files := before.files } rfl hfirstFiles.symm
  exact ⟨settings, hroot, hsettings, ⟨later, hlater⟩, _,
    Catalogs.run_write_of_files hwrite hsecondFiles.symm, (hafter.kept hthirdLogs).symm⟩

theorem run_of_succeeds (hlogs : before.journal.logs = []) {later : Files}
    (h : Succeeds before.files path outputDirectory marker settings generation later) :
    ∃ after, (run path outputDirectory marker).run.run before = (.ok generation, after) := by
  obtain ⟨hroot, hsettings, ⟨_, hextract⟩, _, hwrite, -⟩ := h
  refine exists_run_bind (run_inquire_ok_iff.mpr ⟨hroot, rfl⟩)
    (exists_run_bind (run_report _ _ _) ?_)
  generalize hfirst : before.report _ = first
  have hreported : Reported before first :=
    hfirst ▸ reported_report _ (logsThere_of_logs_eq_nil hlogs)
  have hfirstFiles := hreported.kept hlogs
  have hfirstLogs := hreported.logs.trans hlogs
  obtain ⟨second, hsecond, hsecondReported⟩ :=
    run_ofSettings_of_files hextract rfl first hfirstLogs hfirstFiles
  have hsecondFiles := (hsecondReported.kept hfirstLogs).trans hfirstFiles
  have hthird := Catalogs.run_write_of_files hwrite hsecondFiles
  rw [← hfirstFiles] at hsettings
  exact exists_run_bind (run_inquire_ok_iff.mpr ⟨hsettings, rfl⟩) (exists_run_bind hsecond
    (exists_run_bind hthird
      (exists_run_bind (run_report _ _ _) (exists_run_bind (run_report _ _ _)
        (exists_run_bind (run_report _ _ _) ⟨_, run_pure⟩)))))

theorem Succeeds.written_eq {later : Files}
    (h : Succeeds files path outputDirectory marker settings generation later) :
    generation.written =
      Catalogs.artifacts (target outputDirectory settings generation.root) := by
  obtain ⟨_, hwrite, -⟩ := h.writes
  obtain ⟨_, _, -, -, -, hwritten⟩ := Catalogs.run_write_ok_iff.mp hwrite
  exact hwritten

/-- The files of a generation spell the records of its extract. -/
theorem Succeeds.spells {later : Files}
    (h : Succeeds files path outputDirectory marker settings generation later)
    (hlinks : ∀ name ∈ Catalogs.fileNames,
      (files.ensureDirectory (target outputDirectory settings generation.root)).2.isLink
        ((target outputDirectory settings generation.root).child name) = false) :
    ∀ part ∈ generation.extract.catalogs.parts, Catalogs.Spells later
      ((target outputDirectory settings generation.root).child part.1) part.2 := by
  obtain ⟨_, hwrite, rfl⟩ := h.writes
  obtain ⟨place, hheld⟩ := Catalogs.held_of_write hwrite hlinks
  obtain ⟨hinterfaces, hevents, hmessageTypes⟩ :=
    Catalogs.recordsDistinct_catalogs generation.extract
  simp only [Catalogs.parts, List.forall_mem_cons] at hheld ⊢
  exact ⟨Catalogs.spells_of_held (by decide) hinterfaces hheld.1,
    Catalogs.spells_of_held (by decide) hevents hheld.2.1,
    Catalogs.spells_of_held (by decide) hmessageTypes hheld.2.2.1, by simp⟩

end Generation

/-! ### The command -/

namespace Command

variable {path : String} {outputDirectory : Option Path} {marker : String} {words : List String}
  {arguments : Arguments} {outcome : Outcome} {generation : Generation}

/-- The line of a report about a file that holds so many records. -/
def reportLine (here path : Path) (count : Nat) : String :=
  s!"{relativeText here path} updated with {count} entries\n"

/-- The report of a generation into a directory, a line for each catalog. -/
def report (here directory : Path) (catalogs : Catalogs) : String :=
  String.join (catalogs.parts.map fun part =>
    reportLine here (directory.child part.1) part.2.length)

/-- A message that a generation failed. -/
def IsGenerationFailure (errors : String) : Prop :=
  ∃ reason, errors = "wfcdocs generate failed: " ++ reason

theorem generationText_eq {here : Path} (h : generation.written = Catalogs.artifacts directory) :
    generationText here generation = report here directory generation.extract.catalogs := by
  simp only [generationText, report, reportLine, h, Catalogs.artifacts, Catalogs.fileNames,
    Catalogs.parts, Extract.catalogs, List.map_cons, List.map_nil, List.length_map,
    List.zip_cons_cons, List.zip_nil_left]

theorem isGenerationFailure_generationFailure (failure : Failure) :
    IsGenerationFailure (generationFailure failure) := by
  rw [generationFailure]
  split
  · exact ⟨failure.quotedMessage ++ "\n", by simp [toString, String.append_assoc]⟩
  · exact ⟨failure.quotedMessage ++ "\n" ++ "Run with --verbose for more details.\n", by
      simp [toString, String.append_assoc]⟩

/-- Without a log file the request is carried out on the files as they are, and nothing is
logged. -/
theorem run_of_ofWords (hwords : Arguments.ofWords words = .ok (some arguments))
    (hlog : arguments.logFile = none) (before : Session) :
    ∃ first : Session, first.files = before.files ∧ first.journal.logs = [] ∧
      (run words).run before = arguments.request.run.run first := by
  let console := Outlet.console arguments.verbose
  rw [run, hwords]
  simp only [hlog]
  exact ⟨{ before with
    journal := { before.journal with threshold := console.least, outlets := [console] } },
    rfl, rfl, rfl⟩

theorem run_generate : (generate path outputDirectory marker).run before =
    match (Generation.run (Path.ofString path) outputDirectory marker).run.run before with
    | (.ok generation, after) =>
      (match after.files.here with
        | .ok here => .printed (generationText here generation)
        | .error fault => .failed (.file fault), after)
    | (.error failure, after) => (.refused (generationFailure failure), after) := by
  rw [generate, StateT.run_bind]
  obtain ⟨outcome, after⟩ :=
    (Generation.run (Path.ofString path) outputDirectory marker).run.run before
  cases outcome with
  | error failure => rfl
  | ok generation =>
    show (match after.files.here with
      | .ok here => return Outcome.printed (generationText here generation)
      | .error fault => return Outcome.failed (.file fault) : StateM Session Outcome).run after = _
    dsimp only
    cases after.files.here <;> rfl

/-- A command line that generates catalogs and names no log file ends in one of three ways. If every
step of the generation succeeds, the file of each catalog spells its records, and the report has a
line for each with their number; but where the working directory has been removed the command fails
without a message instead. If a step fails, it ends with a message and prints nothing. -/
theorem outcome_of_generate (hwords : Arguments.ofWords words = .ok (some arguments))
    (hrequest : arguments.request = .generate path outputDirectory marker)
    (hlog : arguments.logFile = none)
    (hlinks : ∀ root settings, Workspace.root before.files (.ofString path) marker = .ok root →
      Settings.load Settings.reader before.files root = .ok settings →
      let directory := Generation.target outputDirectory settings root
      ∀ name ∈ Catalogs.fileNames,
        (before.files.ensureDirectory directory).2.isLink (directory.child name) = false)
    (hrun : (run words).run before = (outcome, after)) :
    (∃ settings generation,
      Generation.Succeeds before.files (.ofString path) outputDirectory marker settings generation
        after.files ∧
      let directory := Generation.target outputDirectory settings generation.root
      let catalogs := generation.extract.catalogs
      (∀ part ∈ catalogs.parts,
        Catalogs.Spells after.files (directory.child part.1) part.2) ∧
      ((∃ here, after.files.here = .ok here ∧
          outcome = .exit 0 (report here directory catalogs) "") ∨
        after.files.here = .error .hereMissing ∧ outcome = .failed (.file .hereMissing))) ∨
    (¬∃ settings generation later, Generation.Succeeds before.files (.ofString path)
        outputDirectory marker settings generation later) ∧
      ∃ errors, outcome = .exit 1 "" errors ∧ IsGenerationFailure errors := by
  obtain ⟨first, hfiles, hlogs, hfirst⟩ := run_of_ofWords hwords hlog before
  rw [hfirst, hrequest, Request.run, run_generate] at hrun
  rw [← hfiles] at hlinks ⊢
  cases hgeneration : (Generation.run (.ofString path) outputDirectory marker).run.run first with
  | mk answer last =>
    rw [hgeneration] at hrun
    cases answer with
    | ok generation =>
      injection hrun with houtcome hlast
      subst houtcome hlast
      obtain ⟨settings, hsucceeds⟩ := Generation.succeeds_of_run hlogs hgeneration
      refine .inl ⟨settings, generation, hsucceeds,
        hsucceeds.spells (hlinks _ _ hsucceeds.finds hsucceeds.loads), ?_⟩
      cases hhere : last.files.here with
      | ok here =>
        exact .inl ⟨here, rfl, congrArg Outcome.printed (generationText_eq hsucceeds.written_eq)⟩
      | error fault =>
        obtain ⟨-, rfl⟩ := Files.here_eq_error_iff.mp hhere
        exact .inr ⟨rfl, rfl⟩
    | error failure =>
      injection hrun with houtcome hlast
      subst houtcome hlast
      refine .inr ⟨fun hsucceeds => ?_, _, rfl, isGenerationFailure_generationFailure failure⟩
      obtain ⟨settings, generation, later, hsucceeds⟩ := hsucceeds
      obtain ⟨other, hother⟩ := Generation.run_of_succeeds hlogs hsucceeds
      rw [hgeneration] at hother
      injection hother with hother
      injection hother

/-- A workspace with a client of one method, generated from inside it. -/
theorem outcome_of_generate_single :
    let sdk : Location := ["w", "packages", "sdk-middleware", "wildfirechat", "wfc"]
    let before : Session :=
      ⟨⟨⟨[(["w"], .directory), (["w", Workspace.defaultMarker], .file []),
          (sdk.take 2, .directory), (sdk.take 3, .directory), (sdk.take 4, .directory),
          (sdk, .directory), (sdk ++ ["client"], .directory),
          (sdk ++ ["client", "wfc.js"], .file (Utf8.encode "send(to) \x7b".toList))],
            by decide⟩, ["w"], "/"⟩, {}, ""⟩
    let words := ["generate", "--output-dir", "docs"]
    let directory := Path.mk .relative ["docs"]
    let text := "docs/interfaces.json updated with 1 entries\n" ++
      "docs/events.json updated with 0 entries\n" ++
      "docs/message-types.json updated with 0 entries\n"
    ∃ settings generation after, (run words).run before = (.exit 0 text "", after) ∧
      Generation.Succeeds before.files (.ofString ".") (some directory) Workspace.defaultMarker
        settings generation after.files ∧
      ∀ part ∈ generation.extract.catalogs.parts,
        Catalogs.Spells after.files (directory.child part.1) part.2 := by
  intro sdk before words directory text
  have hwords : Arguments.ofWords words = .ok (some ⟨false, none,
      .generate "." (some directory) Workspace.defaultMarker⟩) := by decide +kernel
  have hlinks : ∀ name ∈ Catalogs.fileNames,
      (before.files.ensureDirectory directory).2.isLink (directory.child name) = false := by
    decide +kernel
  have hanswer : ((run words).run before).1 = .exit 0 text "" := by decide +kernel
  clear_value before words directory text
  generalize hrun : (run words).run before = answer at hanswer
  obtain ⟨outcome, after⟩ := answer
  subst hanswer
  rcases outcome_of_generate hwords rfl rfl (fun _ _ _ _ => hlinks) hrun with hreport | hfails
  · obtain ⟨settings, generation, hsucceeds, hspells, -⟩ := hreport
    exact ⟨settings, generation, after, rfl, hsucceeds, hspells⟩
  · obtain ⟨-, errors, herrors, -⟩ := hfails
    injection herrors with hstatus
    simp at hstatus

/-- From a working directory that has been removed the catalogs of a workspace are written, and the
command fails all the same, without a status or a message. -/
theorem generate_fails_without_here :
    let before : Session :=
      ⟨⟨⟨[(["w"], .directory), (["w", Workspace.defaultMarker], .file [])], by decide⟩,
        ["gone/"], "/"⟩, {}, ""⟩
    let words := ["generate", "/w"]
    let answer := (run words).run before
    Arguments.ofWords words =
      .ok (some ⟨false, none, .generate "/w" none Workspace.defaultMarker⟩) ∧
    answer.1 = .failed (.file .hereMissing) ∧
    ∀ name ∈ Catalogs.fileNames, before.files.tree.entry? ["w", "docs", name] = none ∧
      answer.2.files.tree.entry? ["w", "docs", name] =
        some (.file (Utf8.encode "[]".toList)) := by
  decide +kernel

end Command

end SdkCatalog
