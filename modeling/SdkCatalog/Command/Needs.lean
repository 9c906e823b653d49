import SdkCatalog.Command.Run

/-! What a command line needs to know of the files. Some needs only show once others are met: the
sources that are read are named by the settings, and those are found by the marker of the root. A
command line is ready to be carried out when everything it needs is known. -/

namespace SdkCatalog.Command

/-- A part of the files that has to be known. -/
inductive Need where
  /-- The way along a path: every link on it and what the path leads to. -/
  | way (path : Path)
  /-- What stands in the directory that the path leads to. -/
  | listing (directory : Path)
  deriving DecidableEq

namespace Need

def catalogs (directory : Path) : List Need :=
  [Catalogs.interfacesFile, Catalogs.eventsFile, Catalogs.messageTypesFile].map fun name =>
    .way (directory.child name)

def sources (paths : SourcePaths) : List Need :=
  [.way paths.client, .way paths.events, .way paths.messageConfig, .way paths.contentTypes,
    .way paths.persistFlags, .listing paths.messagesDirectory]

/-- The markers that could tell the root above a path. -/
def markers (files : Files) (path : Path) (marker : String) : List Need :=
  match files.resolve path with
  | .ok resolved => resolved.upward.map fun directory => .way (directory.child marker)
  | .error _ => []

/-- The sources and the output below a root, as far as its settings are known. -/
def belowRoot (files : Files) (root : Path) (outputDirectory : Option Path) : List Need :=
  .way (root.child settingsFile) ::
    match Settings.load Settings.reader files root with
    | .ok settings =>
      sources (settings.sourcePaths root) ++
        catalogs (outputDirectory.getD (settings.outputPath root))
    | .error _ => []

/-- What a generation needs to know, as far as the files known so far tell. -/
def ofGeneration (files : Files) (path : Path) (outputDirectory : Option Path)
    (marker : String) : List Need :=
  match files.expandHome path with
  | none => []
  | some start =>
    .way start :: markers files start marker ++
      match Workspace.root files path marker with
      | .ok root => belowRoot files root outputDirectory
      | .error _ => []

def ofRequest (files : Files) : Request → List Need
  | .generate path outputDirectory marker =>
    ofGeneration files (Path.ofString path) outputDirectory marker
  | .tools directory | .call directory _ _ => catalogs directory

/-- What a file that gets the journal needs to know: the directories above it are made as the path
is written, and the file is opened as the path is spelled. -/
def ofLogFile (files : Files) (path : Path) : List Need :=
  .way path :: (files.spelled path).toOption.toList.map .way

def ofWords (files : Files) (words : List String) : List Need :=
  match Arguments.ofWords words with
  | .ok (some arguments) =>
    (arguments.logFile.map (ofLogFile files)).getD [] ++ ofRequest files arguments.request
  | _ => []

end Need

end SdkCatalog.Command
