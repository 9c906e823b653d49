import SdkCatalog.Json.Value
import SdkCatalog.Json.Writer
import SdkCatalog.Registry.MessageType
import SdkCatalog.Session
import SdkCatalog.Source.Line
import SdkCatalog.Source.Scan

/-! The three catalogs: interfaces, events and message types. As extracted from the sources they
hold entries, and as written and loaded they hold JSON objects. -/

namespace SdkCatalog

/-! ### Records -/

/-- What the sources of a workspace give. -/
structure Extract where
  interfaces : List Interface
  events : List Event
  messageTypes : List MessageType

/-- Three catalogs of JSON objects. -/
structure Catalogs where
  interfaces : List Json.Members := []
  events : List Json.Members := []
  messageTypes : List Json.Members := []

/-- The name of a catalog's file. -/
def Catalogs.interfacesFile : String := "interfaces.json"

@[inherit_doc Catalogs.interfacesFile]
def Catalogs.eventsFile : String := "events.json"

@[inherit_doc Catalogs.interfacesFile]
def Catalogs.messageTypesFile : String := "message-types.json"

namespace Json

/-- A text, or null when there is none. -/
def Value.ofText? : Option String → Value
  | some value => .str value
  | none => .null

def Value.ofNumber? : Option Number → Value
  | some value => .number value
  | none => .null

end Json

/-- The object that records an interface. It has no documentation member when there is no
comment. -/
def Interface.record (entry : Interface) : Json.Members :=
  [("name", .str entry.name), ("params", .arr (entry.params.map .str))] ++
    entry.doc.toList.map fun doc => ("jsdoc", .str doc)

def Event.record (entry : Event) : Json.Members :=
  [("name", .str entry.name), ("value", .str entry.value)]

/-- The object that records a message type. What is not known is null. -/
def MessageType.record (entry : MessageType) : Json.Members :=
  [("name", .str entry.name), ("flag", .str entry.flag), ("flagValue", .ofNumber? entry.flagValue),
    ("flagDescription", .ofText? entry.flagDoc), ("typeEnum", .str entry.contentType),
    ("typeValue", .ofNumber? entry.typeValue), ("typeDescription", .ofText? entry.typeDoc),
    ("contentClazz", .str entry.className), ("classFile", .ofText? entry.classFile),
    ("extends", .ofText? entry.base), ("jsdoc", .ofText? entry.doc)]

def Extract.catalogs (extract : Extract) : Catalogs :=
  { interfaces := extract.interfaces.map Interface.record
    events := extract.events.map Event.record
    messageTypes := extract.messageTypes.map MessageType.record }

/-! ### Writing

A catalog's whole text is made before its file is touched, so that a number too long to be
written leaves the file as it was. -/

namespace Catalogs

/-- The text of a catalog, unless a whole number in it is too long to be written. -/
def text? (records : List Json.Members) : Option String :=
  (Json.Value.arr (records.map .obj)).write?

/-- A refusal of the system as a failure to write; another fault stands for itself. -/
def refused (failure : FileFault → Failure) (fault : FileFault) : Failure :=
  if fault.isRefusal then failure fault else .file fault

/-- Writes a catalog into a directory, which is made if it is missing, and stays made when the text
cannot be written. The answer is the path of the file. -/
def writeOne (directory : Path) (fileName : String) (records : List Json.Members) :
    Action Path := do
  Action.ensureDirectory (refused (.outputDirectory directory.text)) directory
  let target := directory.child fileName
  match text? records with
  | none => throw .numberTooLong
  | some text =>
    Action.change (refused (.artifact target.text)) fun files =>
      files.write target (Utf8.encode text.toList)
    return target

/-- Writes the three catalogs into a directory. The answer has the name and the path of each
file. -/
def write (directory : Path) (catalogs : Catalogs) : Action (List (String × Path)) := do
  let interfaces ← writeOne directory interfacesFile catalogs.interfaces
  let events ← writeOne directory eventsFile catalogs.events
  let messageTypes ← writeOne directory messageTypesFile catalogs.messageTypes
  return [(interfacesFile, interfaces), (eventsFile, events), (messageTypesFile, messageTypes)]

end Catalogs

end SdkCatalog
