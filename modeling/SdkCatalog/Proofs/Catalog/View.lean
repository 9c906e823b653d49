import SdkCatalog.Proofs.Catalog.Generation

/-! Extraction sees nothing of the files but the texts of some paths and the source files of one
directory. These tell its outcome, which is the same wherever they are the same. -/

namespace SdkCatalog

open Session Workspace

variable {α β ε : Type} {before after : Session}

/-- What is seen of the sources of a workspace: the source files of a directory, and the texts of
the paths that are read. -/
structure Workspace.View where
  directory : Path
  suffixes : List String
  sourceFiles : List Path
  reads : List Path
  text : Path → String

/-- A session shows a view, and no log file is among what is read. -/
structure Session.Shows (session : Session) (view : View) : Prop where
  sourceFiles : Workspace.sourceFiles session.files view.directory view.suffixes = view.sourceFiles
  text : ∀ path ∈ view.reads, sourceText session.files path = view.text path
  logsApart : session.LogsApart view.reads

theorem Session.Shows.of_reported {view : View} (h : before.Shows view)
    (hreported : Reported before after) : after.Shows view where
  sourceFiles := (hreported.files.sourceFiles _ _).trans h.sourceFiles
  text path hpath :=
    (hreported.files.sourceText (h.logsApart.avoids path hpath)).trans (h.text path hpath)
  logsApart := h.logsApart.of_reported hreported

namespace Action

variable {view : View}

/-- An action has an outcome in every session that shows a view, and leaves nothing but reports
behind. -/
def Yields (view : View) (action : Action α) (outcome : Except Failure α) : Prop :=
  ∀ before, before.Shows view →
    ∃ after, action.run.run before = (outcome, after) ∧ Reported before after

/-- An action answers the same in every session that shows a view, and leaves nothing but reports
behind. -/
def Determined (view : View) (action : Action α) : Prop :=
  ∃ outcome, Yields view action outcome

/-- An action that is determined answers elsewhere what it answers once. -/
theorem Determined.run_ok {action : Action α} {answer : α} {other : Session}
    (h : Determined view action) (hbefore : before.Shows view)
    (hrun : action.run.run before = (.ok answer, after)) (hother : other.Shows view) :
    ∃ later, action.run.run other = (.ok answer, later) ∧ Reported other later := by
  obtain ⟨outcome, hdetermined⟩ := h
  obtain ⟨_, hfirst, -⟩ := hdetermined before hbefore
  rw [hrun] at hfirst
  injection hfirst with houtcome
  exact houtcome ▸ hdetermined other hother

theorem yields_pure (value : α) : Yields view (pure value) (.ok value) :=
  fun before h => ⟨before, run_pure, .refl h.logsApart.there⟩

theorem yields_bind {action : Action α} {next : α → Action β} {value : α}
    {outcome : Except Failure β} (h : Yields view action (.ok value))
    (hnext : Yields view (next value) outcome) : Yields view (action >>= next) outcome := by
  intro before hbefore
  obtain ⟨between, hrun, hbetween⟩ := h before hbefore
  obtain ⟨after, hlast, hafter⟩ := hnext between (hbefore.of_reported hbetween)
  exact ⟨after, (run_bind_of_ok hrun).trans hlast, hbetween.trans hafter⟩

theorem yields_bind_error {action : Action α} {next : α → Action β} {failure : Failure}
    (h : Yields view action (.error failure)) : Yields view (action >>= next) (.error failure) := by
  intro before hbefore
  obtain ⟨after, hrun, hafter⟩ := h before hbefore
  exact ⟨after, run_bind_of_error hrun, hafter⟩

theorem yields_report (level : Level) (part message : String) :
    Yields view (report level part message) (.ok ()) :=
  fun _ h => ⟨_, run_report level part message, reported_report _ h.logsApart.there⟩

theorem yields_readSource {path : Path} (hpath : path ∈ view.reads) :
    Yields view (readSource path) (.ok (view.text path)) := by
  intro before h
  rw [← h.text path hpath]
  exact run_readSource path h.logsApart.there

end Action

/-! ### What a view gives -/

namespace Workspace.View

/-- The constants of the text at a path. -/
def constants (view : View) (path : Path) : Except Failure (List Constant) :=
  (Constant.ofSource (view.text path)).mapError .numeralTooLong

/-- The classes of the source files, in order. -/
def classes (view : View) : List ClassDeclaration :=
  view.sourceFiles.flatMap fun file => ClassDeclaration.ofSource file.text (view.text file)

/-- The message types that the texts register: none without a configuration, and otherwise the
registrations joined with the constants and the classes. -/
def messageTypes (view : View) (paths : SourcePaths) (typeNamespace : String) :
    Except Failure (List MessageType) :=
  if view.text paths.messageConfig = "" then .ok []
  else do
    let contentTypes ← view.constants paths.contentTypes
    let flags ← view.constants paths.persistFlags
    return MessageType.join (.ofLists contentTypes flags view.classes)
      (Registration.ofSource typeNamespace (view.text paths.messageConfig))

/-- The extract that the texts give. -/
def extract (view : View) (paths : SourcePaths) (typeNamespace : String) :
    Except Failure Extract :=
  (view.messageTypes paths typeNamespace).map fun messageTypes =>
    { interfaces := Interface.ofSource (view.text paths.client)
      events := Event.ofSource (view.text paths.events)
      messageTypes }

end Workspace.View

open SdkCatalog.Action

variable {view : View} {paths : SourcePaths}

theorem Constant.yields_ofFile {path : Path} (hpath : path ∈ view.reads) :
    Yields view (ofFile path) ((view.constants path).map (Table.ofList Constant.name)) := by
  refine yields_bind (yields_readSource hpath) ?_
  rw [View.constants]
  cases ofSource (view.text path) with
  | ok constants => exact yields_pure _
  | error fault => exact fun before h => ⟨before, rfl, .refl h.logsApart.there⟩

theorem ClassDeclaration.yields_ofDirectory (hfiles : view.sourceFiles ⊆ view.reads) :
    Yields view (ofDirectory view.directory view.suffixes)
      (.ok (Table.ofList ClassDeclaration.name view.classes)) := by
  intro before h
  have hlogs : before.LogsApart
      (Workspace.sourceFiles before.files view.directory view.suffixes) := by
    rw [h.sourceFiles]
    exact h.logsApart.mono hfiles
  have htexts : sourceTexts before.files view.directory view.suffixes =
      view.sourceFiles.map fun file => (file.text, view.text file) := by
    rw [sourceTexts, h.sourceFiles]
    exact List.map_congr_left fun file hfile => by rw [h.text file (hfiles hfile)]
  have hrun := run_ofDirectory hlogs
  rw [htexts, ofTexts, List.flatMap_map] at hrun
  exact hrun

def SourcePaths.files (paths : SourcePaths) : List Path :=
  [paths.client, paths.events, paths.messageConfig, paths.contentTypes, paths.persistFlags]

/-- The view that files give of the sources of a workspace. -/
def Workspace.viewOf (files : Files) (paths : SourcePaths) (suffixes : List String) : View where
  directory := paths.messagesDirectory
  suffixes := suffixes
  sourceFiles := sourceFiles files paths.messagesDirectory suffixes
  reads := paths.files ++ sourceFiles files paths.messagesDirectory suffixes
  text := sourceText files

theorem Session.shows_viewOf {suffixes : List String}
    (h : before.LogsApart (viewOf before.files paths suffixes).reads) :
    before.Shows (viewOf before.files paths suffixes) :=
  ⟨rfl, fun _ _ => rfl, h⟩

theorem MessageType.yields_ofSources (files : Files) (paths : SourcePaths)
    (suffixes : List String) (typeNamespace : String) :
    Yields (viewOf files paths suffixes) (ofSources paths suffixes typeNamespace)
      ((viewOf files paths suffixes).messageTypes paths typeNamespace) := by
  generalize hview : viewOf files paths suffixes = view
  have hreads : ∀ path ∈ paths.files, path ∈ view.reads :=
    fun path hpath => hview ▸ List.mem_append_left _ hpath
  have htypes := Constant.yields_ofFile (hreads paths.contentTypes (by simp [SourcePaths.files]))
  have hflags := Constant.yields_ofFile (hreads paths.persistFlags (by simp [SourcePaths.files]))
  have hclasses : Yields view (ClassDeclaration.ofDirectory paths.messagesDirectory suffixes)
      (.ok (Table.ofList ClassDeclaration.name view.classes)) := by
    subst hview
    exact ClassDeclaration.yields_ofDirectory (List.subset_append_right _ _)
  refine yields_bind (yields_readSource (hreads _ (by simp [SourcePaths.files]))) ?_
  rw [View.messageTypes]
  split
  · exact yields_bind (yields_report _ _ _) (yields_pure _)
  · cases hfound : view.constants paths.contentTypes with
    | error failure =>
      rw [hfound] at htypes
      exact yields_bind_error htypes
    | ok contentTypes =>
      rw [hfound] at htypes
      refine yields_bind htypes ?_
      cases hfound' : view.constants paths.persistFlags with
      | error failure =>
        rw [hfound'] at hflags
        exact yields_bind_error hflags
      | ok flags =>
        rw [hfound'] at hflags
        exact yields_bind hflags
          (yields_bind hclasses (yields_bind (yields_report _ _ _) (yields_pure _)))

/-- The outcome of an extraction is what the texts of the sources and the source files of the
messages give. -/
theorem Extract.yields_ofSettings (files : Files) (settings : Settings) (root : Path) :
    let paths := settings.sourcePaths root
    Yields (viewOf files paths settings.classSuffixes) (ofSettings settings root)
      ((viewOf files paths settings.classSuffixes).extract paths settings.typeNamespace) := by
  intro paths
  have hreads : ∀ path ∈ paths.files,
      path ∈ (viewOf files paths settings.classSuffixes).reads :=
    fun path => List.mem_append_left _
  refine yields_bind (yields_report _ _ _)
    (yields_bind (yields_readSource (hreads paths.client (by simp [SourcePaths.files])))
      (yields_bind (yields_readSource (hreads paths.events (by simp [SourcePaths.files]))) ?_))
  have hmessageTypes :=
    MessageType.yields_ofSources files paths settings.classSuffixes settings.typeNamespace
  rw [View.extract]
  cases hfound : (viewOf files paths settings.classSuffixes).messageTypes paths
      settings.typeNamespace with
  | error failure =>
    rw [hfound] at hmessageTypes
    exact yields_bind_error hmessageTypes
  | ok messageTypes =>
    rw [hfound] at hmessageTypes
    exact yields_bind hmessageTypes (yields_pure _)

/-- An extract is determined by the texts of the sources and the source files of the messages. -/
theorem Extract.determined_ofSettings (files : Files) (settings : Settings) (root : Path) :
    Determined (viewOf files (settings.sourcePaths root) settings.classSuffixes)
      (ofSettings settings root) :=
  ⟨_, yields_ofSettings files settings root⟩

end SdkCatalog
