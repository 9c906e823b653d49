import SdkCatalog.Session
import SdkCatalog.Source.Scan
import SdkCatalog.Text.Basic
import SdkCatalog.Yaml.Basic
import SdkCatalog.Yaml.Content

/-! The settings of a workspace: where its sources are, where the catalogs go and how classes and
content types are told. Every setting is independent of the others and has a default; an entry of
the wrong type counts as absent, except that class suffixes, when given, must name at least one. -/

namespace SdkCatalog

/-- The files and the directory that catalogs are made from. -/
structure SourcePaths where
  client : Path
  events : Path
  messageConfig : Path
  messagesDirectory : Path
  contentTypes : Path
  persistFlags : Path
  deriving DecidableEq

/-- The settings of a workspace. The sources are given by texts relative to the directory of the
SDK, and that and the output directory relative to the root. -/
structure Settings where
  root : Path
  sdkDirectory : String := "packages/sdk-middleware/wildfirechat/wfc"
  client : String := "client/wfc.js"
  events : String := "client/wfcEvent.js"
  messageConfig : String := "client/messageConfig.js"
  messagesDirectory : String := "messages"
  contentTypes : String := "messages/messageContentType.js"
  persistFlags : String := "messages/persistFlag.js"
  outputDirectory : String := "docs"
  classSuffixes : List String := [".js", ".ts"]
  typeNamespace : String := Registration.defaultNamespace
  deriving DecidableEq

namespace Settings

def sourcePaths (settings : Settings) (root : Path) : SourcePaths :=
  let sdk := root.child settings.sdkDirectory
  { client := sdk.child settings.client
    events := sdk.child settings.events
    messageConfig := sdk.child settings.messageConfig
    messagesDirectory := sdk.child settings.messagesDirectory
    contentTypes := sdk.child settings.contentTypes
    persistFlags := sdk.child settings.persistFlags }

def outputPath (settings : Settings) (root : Path) : Path :=
  root.child settings.outputDirectory

/-- The pairs of a mapping; of any other value none. -/
def pairsOf : Option Yaml.Value → List (Yaml.Value × Yaml.Value)
  | some (.mapping pairs) => pairs
  | _ => []

/-- The text of an entry that is a text or a number. -/
def textOf : Option Yaml.Value → Except Failure (Option String)
  | some (.text value) => .ok (some value)
  | some (.number (.int value)) =>
    if (Number.int value).isWritable then .ok (some (String.ofList (intText value)))
    else .error .numberTooLong
  | some (.number (.float value)) => .ok (some (String.ofList (value.textWith "inf" "nan")))
  | _ => .ok none

/-- The setting that an entry makes: its text, unless that is missing or empty. -/
def override (entry : Option Yaml.Value) (default : String) : Except Failure String :=
  (textOf entry).map fun
    | some "" | none => default
    | some text => text

/-- The class suffixes that an entry gives: a text itself, or the texts in a sequence that are not
empty. -/
def suffixesOf : Yaml.Value → List String
  | .text value => [value]
  | .sequence items =>
    items.filterMap fun
      | .text "" => none
      | .text value => some value
      | _ => none
  | _ => []

/-- The class suffixes that the extraction section gives, or the default ones. -/
def classSuffixesOf (extraction : List (Yaml.Value × Yaml.Value)) (default : List String) :
    Except Failure (List String) :=
  match Yaml.Value.get? "class_suffixes" extraction with
  | none => .ok default
  | some entry =>
    match suffixesOf entry with
    | [] => .error .noClassSuffix
    | suffixes => .ok suffixes

/-- The settings that the pairs of a settings file make below a root. When several entries fail, the
first one counts in the order in which they are read here. -/
def ofPairs (root : Path) (pairs : List (Yaml.Value × Yaml.Value)) : Except Failure Settings := do
  let default : Settings := { root }
  let sources := pairsOf (Yaml.Value.get? "sources" pairs)
  let output := pairsOf (Yaml.Value.get? "output" pairs)
  let extraction := pairsOf (Yaml.Value.get? "extraction" pairs)
  let entry := fun (key : String) => override (Yaml.Value.get? key sources)
  let sdkDirectory ← entry "sdk_dir" default.sdkDirectory
  let client ← entry "client" default.client
  let events ← entry "events" default.events
  let messageConfig ← entry "message_config" default.messageConfig
  let messagesDirectory ← entry "messages_dir" default.messagesDirectory
  let contentTypes ← entry "content_types" default.contentTypes
  let persistFlags ← entry "persist_flags" default.persistFlags
  let outputDirectory ← override (Yaml.Value.get? "dir" output) default.outputDirectory
  let classSuffixes ← classSuffixesOf extraction default.classSuffixes
  let typeNamespace ←
    override (Yaml.Value.get? "type_namespace" extraction) default.typeNamespace
  return { root, sdkDirectory, client, events, messageConfig, messagesDirectory, contentTypes,
           persistFlags, outputDirectory, classSuffixes, typeNamespace }

/-- The settings that the value of a settings file makes below a root. -/
def ofValue (root : Path) : Yaml.Value → Except Failure Settings
  | .null => .ok { root }
  | .mapping pairs => ofPairs root pairs
  | _ => .error .settingsNotMapping

/-- How deep the settings look into their file: at the sections, the entries of a section and the
items of an entry. -/
def depth : Nat := 4

/-- The reader of settings files. -/
def reader : Yaml.Reader :=
  Yaml.read depth

/-- The settings that the text of a file makes below a root, as a reader takes it. A blank text
makes none. -/
def ofText (read : Yaml.Reader) (root : Path) (file : String) (cs : List Char) :
    Except Failure Settings :=
  if cs.all Text.isBlank then .ok { root }
  else
    match read cs with
    | .ok value => ofValue root value
    | .error .malformed => .error (.settingsMalformed file)
    | .error fault => .error (.settingsUnread fault)

/-- The settings file that a path stands for: the path itself if it has the name of one, the one
in a directory, and otherwise the one beside the path. -/
def filePath (files : Files) (path : Path) : Except Failure Path :=
  match files.expandHome path with
  | none => .error .homeUnknown
  | some path =>
    let file :=
      if files.isDirectory path then path.child settingsFile
      else if path.name = settingsFile then path
      else path.parent.child settingsFile
    (files.resolve file).mapError .file

/-- The settings for a path, as a reader takes their file. The directory of the file is the root,
whether or not the file is there, and without a file the defaults hold. -/
def load (read : Yaml.Reader) (files : Files) (path : Path) : Except Failure Settings := do
  let file ← filePath files path
  let root ← (files.resolve file.parent).mapError .file
  if files.present file then
    let cs ← (files.text file).mapError .ofTextFault
    ofText read root file.name cs
  else
    return { root }

end Settings

end SdkCatalog
