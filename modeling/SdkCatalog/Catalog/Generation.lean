import SdkCatalog.Catalog.Basic
import SdkCatalog.Registry.MessageType
import SdkCatalog.Settings
import SdkCatalog.Workspace

/-! Generation: the catalogs of a workspace are extracted from its sources and written. -/

namespace SdkCatalog

/-! ### Extraction

The classes of a directory are folded file by file in the order of names, and the last
declaration of a class counts. -/

/-- The classes that the message files of a directory declare, by name. -/
def ClassDeclaration.ofDirectory (directory : Path) (suffixes : List String) :
    Action (Table ClassDeclaration) := do
  let files ← Action.ask (Workspace.sourceFiles · directory suffixes)
  files.foldlM (fun classes file => do
    let source ← Workspace.readSource file
    if source = "" then return classes
    let found := ofSource file.text source
    Action.report .debug "extractors.classes"
      s!"Found {found.length} class declaration(s) in {file.name}"
    return found.foldl (fun classes entry => classes.insert entry.name entry) classes) []

/-- The constants of a source file, by name. -/
def Constant.ofFile (path : Path) : Action (Table Constant) := do
  let source ← Workspace.readSource path
  let found ← Action.orFail .numeralTooLong (ofSource source)
  return Table.ofList Constant.name found

/-- The message types that the sources register. Without a message configuration there are none,
and the other sources are not looked at. -/
def MessageType.ofSources (paths : SourcePaths) (suffixes : List String)
    (typeNamespace : String) : Action (List MessageType) := do
  let configuration ← Workspace.readSource paths.messageConfig
  if configuration = "" then
    Action.report .info "registry"
      s!"No message configuration at {paths.messageConfig.text}; skipping message types"
    return []
  let entries := Registration.ofSource typeNamespace configuration
  let contentTypes ← Constant.ofFile paths.contentTypes
  let flags ← Constant.ofFile paths.persistFlags
  let classes ← ClassDeclaration.ofDirectory paths.messagesDirectory suffixes
  Action.report .debug "registry"
    (s!"Joining {entries.length} config entries against {contentTypes.length} enums, " ++
      s!"{flags.length} flags, {classes.length} classes")
  return join ⟨contentTypes, flags, classes⟩ entries

/-! ### Generation -/

/-- Extracts the catalogs that settings ask for, from the sources below a root. -/
def Extract.ofSettings (settings : Settings) (root : Path) : Action Extract := do
  let paths := settings.sourcePaths root
  Action.report .debug "orchestrator" s!"Reading SDK sources under {paths.client.parent.text}"
  let client ← Workspace.readSource paths.client
  let events ← Workspace.readSource paths.events
  let messageTypes ←
    MessageType.ofSources paths settings.classSuffixes settings.typeNamespace
  return { interfaces := Interface.ofSource client, events := Event.ofSource events, messageTypes }

structure Generation where
  root : Path
  extract : Extract
  /-- The name and the path of each file written. -/
  written : List (String × Path)

namespace Generation

/-- Generates the catalogs of the workspace that a path lies in. They go to the given directory, or
else to the one that the settings name. -/
def run (path : Path) (outputDirectory : Option Path) (marker : String) : Action Generation := do
  let root ← Action.inquire (Workspace.root · path marker)
  Action.report .info "orchestrator" s!"Generating catalogs for workspace {root.text}"
  let settings ← Action.inquire (Settings.load Settings.reader · root)
  let extract ← Extract.ofSettings settings root
  let written ← extract.catalogs.write (outputDirectory.getD (settings.outputPath root))
  Action.report .info "orchestrator" s!"Wrote {extract.interfaces.length} interfaces"
  Action.report .info "orchestrator" s!"Wrote {extract.events.length} events"
  Action.report .info "orchestrator" s!"Wrote {extract.messageTypes.length} message types"
  return { root, extract, written }

end Generation

end SdkCatalog
