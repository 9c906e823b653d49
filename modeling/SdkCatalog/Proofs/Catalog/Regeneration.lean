import SdkCatalog.Proofs.Catalog.View
import SdkCatalog.Proofs.Workspace.Furnished

/-! Generation once more: a second run right after the first finds the same root, the same settings
and the same sources, and writes what is there already. -/

namespace SdkCatalog

open SdkCatalog.Action Files Session Workspace

variable {before after : Session} {names : List String}

/-- Writing a catalog makes its directory and its file at most. -/
theorem Catalogs.furnished_writeOne {directory target : Path} {fileName : String}
    {records : List Json.Members} (hfiles : before.files.Plain) (hdots : ".." ∉ directory.names)
    (hname : Path.Single fileName) (hmem : fileName ∈ names)
    (h : (writeOne directory fileName records).run.run before = (.ok target, after)) :
    Furnished (before.files.locate directory) names before.files after.files := by
  obtain ⟨made, text, files, hmade, _, hwrite, _, rfl⟩ := run_writeOne_ok_iff.mp h
  have hfirst : Furnished (before.files.locate directory) names before.files made := by
    have hensured : Furnished (before.files.locate directory) names before.files
        (before.files.ensureDirectory directory).2 :=
      .of_ensureDirectory hfiles hdots List.prefix_rfl
    rwa [hmade] at hensured
  obtain ⟨place, hfound⟩ := isDirectory_iff.mp (isDirectory_of_ensureDirectory hmade)
  obtain ⟨-, hplace, -⟩ := (hfirst.plain.find_entry_iff hdots).mp hfound
  rw [hfirst.locate_eq] at hplace
  subst hplace
  exact hfirst.trans (.of_write hfirst.plain hdots hname hmem hfound hwrite)

theorem Catalogs.furnished_write {catalogs : Catalogs} {directory : Path}
    {written : List (String × Path)} (hfiles : before.files.Plain)
    (hdots : ".." ∉ directory.names)
    (h : (catalogs.write directory).run.run before = (.ok written, after)) :
    Furnished (before.files.locate directory) fileNames before.files after.files := by
  obtain ⟨first, second, hfirst, hsecond, hthird, -⟩ := run_write_ok_iff.mp h
  obtain ⟨hmem, hmem', hmem''⟩ : interfacesFile ∈ fileNames ∧ eventsFile ∈ fileNames ∧
      messageTypesFile ∈ fileNames := by decide
  have hinterfaces := furnished_writeOne hfiles hdots single_interfacesFile hmem hfirst
  have hevents := furnished_writeOne hinterfaces.plain hdots single_eventsFile hmem' hsecond
  have hmessageTypes :=
    furnished_writeOne hevents.plain hdots single_messageTypesFile hmem'' hthird
  rw [hevents.locate_eq] at hmessageTypes
  rw [hinterfaces.locate_eq] at hevents hmessageTypes
  exact (hinterfaces.trans hevents).trans hmessageTypes

/-- A view stays once a directory is made and furnished, if nothing that is read is written to. -/
theorem Session.Shows.of_furnished {files : Files} {paths : SourcePaths} {suffixes : List String}
    {place : Location} (h : before.Shows (viewOf files paths suffixes))
    (hfiles : before.files.Plain) (hfurnished : Furnished place names before.files after.files)
    (hlogs : after.journal.logs = before.journal.logs) (hthere : after.LogsThere)
    (hdots : ∀ path ∈ paths.messagesDirectory :: paths.files, ".." ∉ path.names)
    (hsources : ∀ name ∈ names, ∀ source ∈ paths.files,
      before.files.locate source ≠ place ++ [name])
    (hmembers : before.files.locate paths.messagesDirectory = place →
      ∀ name ∈ names, ∀ suffix ∈ suffixes, ¬suffix.toList <:+ name.toList) :
    after.Shows (viewOf files paths suffixes) := by
  have hlisted : Workspace.sourceFiles before.files paths.messagesDirectory suffixes =
      Workspace.sourceFiles files paths.messagesDirectory suffixes := h.sourceFiles
  have hreads : ∀ path ∈ (viewOf files paths suffixes).reads, ".." ∉ path.names ∧
      ∀ name ∈ names, before.files.locate path ≠ place ++ [name] := by
    intro path hpath
    rcases List.mem_append.mp hpath with hpath | hpath
    · exact ⟨hdots path (List.mem_cons_of_mem _ hpath),
        fun name hname => hsources name hname path hpath⟩
    · rw [← hlisted, hfiles.mem_sourceFiles (hdots _ List.mem_cons_self)] at hpath
      obtain ⟨name, hname, hends, rfl, -⟩ := hpath
      exact ⟨by simp [hdots _ List.mem_cons_self, hname.symm], locate_sourceFile_ne hmembers hends⟩
  constructor
  · exact (hfurnished.sourceFiles hfiles (hdots _ List.mem_cons_self) hmembers).trans hlisted
  · intro path hpath
    obtain ⟨hpathDots, hother⟩ := hreads path hpath
    exact (hfurnished.sourceText hfiles hpathDots hother).trans (h.text path hpath)
  · refine ⟨hthere, fun path hpath => ?_⟩
    rw [hlogs]
    exact hfurnished.avoids hfiles (hreads path hpath).1 h.logsApart.there
      (h.logsApart.avoids path hpath)

namespace Generation

variable {path : Path} {outputDirectory : Option Path} {marker : String} {generation : Generation}
  {settings : Settings}

/-- The files of a workspace in which the catalogs go where nothing is looked for: their files are
no sources, and no name on the way to their directory is that of the marker or of a settings
file. -/
structure Separate (files : Files) (settings : Settings) (root directory : Path)
    (marker : String) : Prop where
  dots : ∀ path ∈ directory :: (settings.sourcePaths root).messagesDirectory ::
    (settings.sourcePaths root).files, ".." ∉ path.names
  sources : ∀ name ∈ Catalogs.fileNames, ∀ source ∈ (settings.sourcePaths root).files,
    files.locate source ≠ files.locate directory ++ [name]
  members : files.locate (settings.sourcePaths root).messagesDirectory = files.locate directory →
    ∀ name ∈ Catalogs.fileNames, ∀ suffix ∈ settings.classSuffixes,
      ¬suffix.toList <:+ name.toList
  wayMarker : marker ∉ files.locate directory
  waySettings : settingsFile ∉ files.locate directory

instance (files : Files) (settings : Settings) (root directory : Path) (marker : String) :
    Decidable (Separate files settings root directory marker) :=
  decidable_of_iff
    ((∀ path ∈ directory :: (settings.sourcePaths root).messagesDirectory ::
        (settings.sourcePaths root).files, ".." ∉ path.names) ∧
      (∀ name ∈ Catalogs.fileNames, ∀ source ∈ (settings.sourcePaths root).files,
        files.locate source ≠ files.locate directory ++ [name]) ∧
      (files.locate (settings.sourcePaths root).messagesDirectory = files.locate directory →
        ∀ name ∈ Catalogs.fileNames, ∀ suffix ∈ settings.classSuffixes,
          ¬suffix.toList <:+ name.toList) ∧
      marker ∉ files.locate directory ∧ settingsFile ∉ files.locate directory)
    ⟨fun h => ⟨h.1, h.2.1, h.2.2.1, h.2.2.2.1, h.2.2.2.2⟩,
      fun h => ⟨h.dots, h.sources, h.members, h.wayMarker, h.waySettings⟩⟩

theorem Separate.congr {files later : Files} {root directory : Path}
    (h : Separate files settings root directory marker)
    (hlocate : ∀ path, later.locate path = files.locate path) :
    Separate later settings root directory marker := by
  refine ⟨h.dots, ?_, ?_, ?_, ?_⟩
  · simpa only [hlocate] using h.sources
  · simpa only [hlocate] using h.members
  · simpa only [hlocate] using h.wayMarker
  · simpa only [hlocate] using h.waySettings

/-! ### What a generation is made from -/

/-- A session in which a generation finds what it is made from: its root, its settings and its
sources. No log file is among the files that are read. -/
structure Prepared (path : Path) (marker : String) (settings : Settings)
    (generation : Generation) (session : Session) : Prop where
  logsThere : session.LogsThere
  found : Workspace.root session.files path marker = .ok generation.root
  loaded : Settings.load Settings.reader session.files generation.root = .ok settings
  loadedApart : ∀ file, Settings.filePath session.files generation.root = .ok file →
    session.files.Avoids session.journal.logs file
  extracted : ∃ files, session.Shows (viewOf files (settings.sourcePaths generation.root)
      settings.classSuffixes) ∧
    ∀ other : Session, other.Shows (viewOf files (settings.sourcePaths generation.root)
        settings.classSuffixes) →
      ∃ later, (Extract.ofSettings settings generation.root).run.run other =
        (.ok generation.extract, later) ∧ Reported other later

namespace Prepared

theorem of_reported (h : Prepared path marker settings generation before)
    (hreported : Reported before after) : Prepared path marker settings generation after where
  logsThere := hreported.logsThere
  found := (hreported.files.root path marker).trans h.found
  loaded := hreported.files.load h.loadedApart h.loaded
  loadedApart file hfile := by
    rw [hreported.files.filePath] at hfile
    rw [hreported.logs]
    exact hreported.files.avoids (h.loadedApart file hfile)
  extracted := by
    obtain ⟨files, hshows, hextract⟩ := h.extracted
    exact ⟨files, hshows.of_reported hreported, hextract⟩

/-- Catalogs that go where nothing is looked for leave everything where it is found. -/
theorem of_furnished {directory : Path} (h : Prepared path marker settings generation before)
    (hfiles : before.files.Plain) (hmarker : Path.Single marker)
    (hfileMarker : marker ∉ Catalogs.fileNames)
    (hseparate : Separate before.files settings generation.root directory marker)
    (hfurnished : Furnished (before.files.locate directory) Catalogs.fileNames before.files
      after.files)
    (hlogs : after.journal.logs = before.journal.logs) (hthere : after.LogsThere) :
    Prepared path marker settings generation after := by
  obtain ⟨root, hroot, hrootDots, hrootNull, hdirectory⟩ :=
    hfiles.of_root_eq_ok hmarker h.found
  have hpath : ∀ files : Files, files.Plain → files.tree.entry? root = some .directory →
      Settings.filePath files generation.root = .ok ((Path.absolute root).child settingsFile) := by
    intro files hplain hentry
    rw [hroot]
    exact hplain.filePath_absolute hrootDots hrootNull hentry
  refine ⟨hthere, ?_, ?_, fun file hfile => ?_, ?_⟩
  · rw [hfurnished.root hfiles hmarker hseparate.wayMarker hfileMarker, h.found]
  · have hload := h.loaded
    rw [hroot] at hload ⊢
    exact hfurnished.load hfiles hrootDots hrootNull hdirectory hseparate.waySettings (by decide)
      hload
  · rw [hpath _ hfurnished.plain (hfurnished.directory hdirectory)] at hfile
    injection hfile with hfile
    subst hfile
    rw [hlogs]
    exact hfurnished.avoids hfiles (Settings.single_settingsFile.not_dots_child hrootDots)
      h.logsThere (h.loadedApart _ (hpath _ hfiles hdirectory))
  · obtain ⟨files, hshows, hextract⟩ := h.extracted
    exact ⟨files, hshows.of_furnished hfiles hfurnished hlogs hthere
      (fun path hpath => hseparate.dots path (List.mem_cons_of_mem _ hpath)) hseparate.sources
      hseparate.members, hextract⟩

end Prepared

/-! ### A generation that is there already -/

/-- A session in which a generation is there already: what it is made from, and its catalogs. No
log file is among the files concerned. -/
structure Settled (path : Path) (directory : Path) (marker : String) (settings : Settings)
    (generation : Generation) (session : Session) : Prop
    extends Prepared path marker settings generation session where
  held : ∃ place, generation.extract.catalogs.HoldsAll session.files directory place
  heldApart : ∀ artifact ∈ Catalogs.artifacts directory,
    session.files.Avoids session.journal.logs artifact.2
  written : generation.written = Catalogs.artifacts directory

namespace Settled

variable {directory : Path}

theorem of_reported (h : Settled path directory marker settings generation before)
    (hreported : Reported before after) :
    Settled path directory marker settings generation after where
  toPrepared := h.toPrepared.of_reported hreported
  held := by
    obtain ⟨place, hheld⟩ := h.held
    exact ⟨place, hheld.of_sameBut hreported.files fun artifact hartifact =>
      hreported.files.avoids (h.heldApart artifact hartifact)⟩
  heldApart artifact hartifact := by
    rw [hreported.logs]
    exact hreported.files.avoids (h.heldApart artifact hartifact)
  written := h.written

/-- Where a generation is there already, another answers it and only reports. -/
theorem run (h : Settled path (outputDirectory.getD (settings.outputPath generation.root)) marker
      settings generation before) :
    ∃ after, (Generation.run path outputDirectory marker).run.run before =
      (.ok generation, after) ∧ Reported before after := by
  have hfirst : Reported before (before.report (.plain .info "orchestrator"
      s!"Generating catalogs for workspace {generation.root.text}")) :=
    reported_report _ h.logsThere
  have hfirstSettled := h.of_reported hfirst
  obtain ⟨view, hshows, hextract⟩ := hfirstSettled.extracted
  obtain ⟨second, hsecondRun, hsecond⟩ := hextract _ hshows
  obtain ⟨place, hheld⟩ := (hfirstSettled.of_reported hsecond).held
  have hwrite := hheld.run_write
  rw [← h.written] at hwrite
  have hbefore := hfirst.trans hsecond
  have hthird := reported_report (.plain .info "orchestrator"
    s!"Wrote {generation.extract.interfaces.length} interfaces") hbefore.logsThere
  have hfourth := reported_report (.plain .info "orchestrator"
    s!"Wrote {generation.extract.events.length} events") hthird.logsThere
  have hlast := reported_report (.plain .info "orchestrator"
    s!"Wrote {generation.extract.messageTypes.length} message types") hfourth.logsThere
  refine ⟨_, run_inquire_bind_ok_iff.mpr ⟨_, h.found, ?_⟩,
    ((hbefore.trans hthird).trans hfourth).trans hlast⟩
  rw [run_bind_of_ok (run_report _ _ _)]
  refine run_inquire_bind_ok_iff.mpr ⟨settings, hfirstSettled.loaded, ?_⟩
  rw [run_bind_of_ok hsecondRun, run_bind_of_ok hwrite]
  rfl

end Settled

/-! ### The second generation -/

theorem filePath_of_root (hfiles : before.files.Plain) (hmarker : Path.Single marker)
    (hroot : Workspace.root before.files path marker = .ok generation.root) :
    Settings.filePath before.files generation.root =
      .ok (generation.root.child settingsFile) := by
  obtain ⟨root, hrootEq, hdots, hnull, hdirectory⟩ := hfiles.of_root_eq_ok hmarker hroot
  rw [hrootEq]
  exact hfiles.filePath_absolute hdots hnull hdirectory

/-- What a generation is made from is there before it. -/
theorem prepared_of_run (hfiles : before.files.Plain) (hmarker : Path.Single marker)
    (hrun : (run path outputDirectory marker).run.run before = (.ok generation, after))
    (hsettings : Settings.load Settings.reader before.files generation.root = .ok settings)
    (hlogs : before.LogsApart (generation.root.child settingsFile ::
      ((settings.sourcePaths generation.root).files ++ sourceFiles before.files
        (settings.sourcePaths generation.root).messagesDirectory settings.classSuffixes))) :
    Prepared path marker settings generation before := by
  obtain ⟨-, -, -, -, hroot, -⟩ := steps_of_run hlogs.there hrun
  have hpath := filePath_of_root hfiles hmarker hroot
  have hpathApart := hlogs.avoids (generation.root.child settingsFile) List.mem_cons_self
  obtain ⟨first, second, _, -, hfirst, hextract, -⟩ :=
    steps_of_run_of_load hlogs.there hpath hpathApart hsettings hrun
  have hshows : before.Shows
      (viewOf before.files (settings.sourcePaths generation.root) settings.classSuffixes) :=
    ⟨rfl, fun _ _ => rfl,
      ⟨hlogs.there, fun path hpath => hlogs.avoids path (List.mem_cons_of_mem _ hpath)⟩⟩
  refine ⟨hlogs.there, hroot, hsettings, fun file hfile => ?_, before.files, hshows,
    fun other hother => ?_⟩
  · rw [hpath] at hfile
    injection hfile with hfile
    exact hfile ▸ hpathApart
  · exact (Extract.determined_ofSettings _ _ _).run_ok (hshows.of_reported hfirst) hextract hother

/-- Once it is written, a generation is there. -/
theorem settled_of_run {directory : Path} (hfiles : before.files.Plain)
    (hmarker : Path.Single marker) (hfileMarker : marker ∉ Catalogs.fileNames)
    (hrun : (run path outputDirectory marker).run.run before = (.ok generation, after))
    (hsettings : Settings.load Settings.reader before.files generation.root = .ok settings)
    (hdirectory : outputDirectory.getD (settings.outputPath generation.root) = directory)
    (hseparate : Separate before.files settings generation.root directory marker)
    (hlogs : before.LogsApart (generation.root.child settingsFile ::
      ((settings.sourcePaths generation.root).files ++ sourceFiles before.files
        (settings.sourcePaths generation.root).messagesDirectory settings.classSuffixes)))
    (hartifacts : ∀ name ∈ Catalogs.fileNames,
      before.files.locate directory ++ [name] ∉ before.journal.logs) :
    Settled path directory marker settings generation after := by
  have hprepared := prepared_of_run hfiles hmarker hrun hsettings hlogs
  obtain ⟨first, second, third, -, hfirst, hextract, hwritten, hthird, hafter⟩ :=
    steps_of_run_of_load hlogs.there (filePath_of_root hfiles hmarker hprepared.found)
      (hlogs.avoids _ List.mem_cons_self) hsettings hrun
  have hbefore := hfirst.trans
    (Extract.onlyReports_ofSettings _ _ _ _ _ hfirst.logsThere hextract)
  have hsecondFiles := hbefore.files.plain hfiles
  have hsecondSeparate := hseparate.congr hbefore.files.locate_eq
  rw [hdirectory] at hwritten
  have hdots := hseparate.dots directory List.mem_cons_self
  have hfurnished := Catalogs.furnished_write hsecondFiles hdots hwritten
  have hthirdLogs : third.journal.logs = second.journal.logs :=
    congrArg Journal.logs (Catalogs.journal_of_write hwritten)
  refine Settled.of_reported ⟨(hprepared.of_reported hbefore).of_furnished hsecondFiles hmarker
    hfileMarker hsecondSeparate hfurnished hthirdLogs hthird, ?_, ?_, ?_⟩ hafter
  · exact Catalogs.holdsAll_of_write hwritten fun artifact _ => hfurnished.plain.isLink _
  · intro artifact hartifact place entry hfound
    obtain ⟨name, hname, rfl⟩ := List.mem_map.mp hartifact
    have hsingle : Path.Single name := Catalogs.single_of_mem_fileNames hname
    obtain ⟨-, rfl, -⟩ :=
      (hfurnished.plain.find_entry_iff (hsingle.not_dots_child hdots)).mp hfound
    rw [hthirdLogs, hbefore.logs, locate_child hsingle, hfurnished.locate_eq,
      hbefore.files.locate_eq]
    exact hartifacts name hname
  · obtain ⟨_, _, _, _, _, hwrittenEq⟩ := Catalogs.run_write_ok_iff.mp hwritten
    exact hwrittenEq

/-- A second generation right after the first answers the same and only reports: no file changes
but the log files, and without a log file none at all. -/
theorem run_again {directory : Path} (hfiles : before.files.Plain) (hmarker : Path.Single marker)
    (hfileMarker : marker ∉ Catalogs.fileNames)
    (hrun : (run path outputDirectory marker).run.run before = (.ok generation, after))
    (hsettings : Settings.load Settings.reader before.files generation.root = .ok settings)
    (hdirectory : outputDirectory.getD (settings.outputPath generation.root) = directory)
    (hseparate : Separate before.files settings generation.root directory marker)
    (hlogs : before.LogsApart (generation.root.child settingsFile ::
      ((settings.sourcePaths generation.root).files ++ sourceFiles before.files
        (settings.sourcePaths generation.root).messagesDirectory settings.classSuffixes)))
    (hartifacts : ∀ name ∈ Catalogs.fileNames,
      before.files.locate directory ++ [name] ∉ before.journal.logs) :
    ∃ final, (run path outputDirectory marker).run.run after = (.ok generation, final) ∧
      after.files.SameBut after.journal.logs final.files ∧
      (after.journal.logs = [] → final.files = after.files) := by
  subst hdirectory
  have hsettled := settled_of_run hfiles hmarker hfileMarker hrun hsettings rfl hseparate hlogs
    hartifacts
  obtain ⟨final, hfinal, hreported⟩ := hsettled.run
  exact ⟨final, hfinal, hreported.files, hreported.kept⟩

/-- A workspace with a client of one method, generated twice from a path in its output directory. -/
theorem run_again_single :
    let sdk : Location := ["w", "packages", "sdk-middleware", "wildfirechat", "wfc"]
    let before : Session :=
      ⟨⟨⟨[(["w"], .directory), (["w", "m"], .directory), (sdk.take 2, .directory),
          (sdk.take 3, .directory), (sdk.take 4, .directory), (sdk, .directory),
          (sdk ++ ["client"], .directory),
          (sdk ++ ["client", "wfc.js"], .file (Utf8.encode "send(to) \x7b".toList))],
            by decide⟩, ["w"], "/"⟩, {}, ""⟩
    let path := Path.mk .relative ["docs"]
    let root := Path.absolute ["w"]
    let directory := Path.absolute ["w", "docs"]
    before.files.Plain ∧ Path.Single "m" ∧ "m" ∉ Catalogs.fileNames ∧
      Settings.load Settings.reader before.files root = .ok { root } ∧
      Separate before.files { root } root directory "m" ∧ before.journal.logs = [] ∧
      ∃ generation after, (run path none "m").run.run before = (.ok generation, after) ∧
        generation.root = root ∧ after.journal.logs = [] ∧
        ∃ final, (run path none "m").run.run after = (.ok generation, final) ∧
          final.files = after.files := by
  intro sdk before path root directory
  have hbefore : before.files.Plain ∧ Path.Single "m" ∧ "m" ∉ Catalogs.fileNames ∧
      Settings.load Settings.reader before.files root = .ok { root } ∧
      Separate before.files { root } root directory "m" ∧ before.journal.logs = [] ∧
      (none : Option Path).getD (Settings.outputPath { root } root) = directory := by
    decide +kernel
  have hanswer : ((run path none "m").run.run before).1.map (·.root) = .ok root ∧
      ((run path none "m").run.run before).2.journal.logs = [] := by decide +kernel
  clear_value directory root path before
  obtain ⟨hfiles, hmarker, hfileMarker, hsettings, hseparate, hlogs, hdirectory⟩ := hbefore
  generalize hrun : (run path none "m").run.run before = answer at hanswer
  obtain ⟨outcome, after⟩ := answer
  obtain ⟨hroot, hlogsAfter⟩ := hanswer
  cases outcome with
  | error failure => simp [Except.map] at hroot
  | ok generation =>
    obtain rfl : generation.root = root := by simpa [Except.map] using hroot
    obtain ⟨final, hfinal, -, hkept⟩ := run_again hfiles hmarker hfileMarker hrun hsettings
      hdirectory hseparate (logsApart_of_logs_eq_nil hlogs _) (by simp [hlogs])
    exact ⟨hfiles, hmarker, hfileMarker, hsettings, hseparate, hlogs, generation, after, rfl, rfl,
      hlogsAfter, final, hfinal, hkept hlogsAfter⟩

/-- A marker that is named like a catalog's file makes the output directory a root once the catalog
is written, so that the second generation may be of another workspace. -/
theorem run_again_other_root :
    let before : Session :=
      ⟨⟨⟨[(["w"], .directory), (["w", "interfaces.json"], .file [])], by decide⟩, ["w"], "/"⟩, {},
        ""⟩
    let root := Path.absolute ["w"]
    let marker := "interfaces.json"
    let first := (run ⟨.relative, ["docs"]⟩ none marker).run.run before
    let second := (run ⟨.relative, ["docs"]⟩ none marker).run.run first.2
    before.files.Plain ∧ before.journal.logs = [] ∧ Path.Single marker ∧
      Settings.load Settings.reader before.files root = .ok { root } ∧
      Separate before.files { root } root (Settings.outputPath { root } root) marker ∧
      first.1.map (·.root) = .ok root ∧ second.1.map (·.root) = .ok (.absolute ["w", "docs"]) := by
  decide +kernel

end Generation

end SdkCatalog
