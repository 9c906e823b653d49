import SdkCatalog.Catalog.Basic
import SdkCatalog.Json.Reader
import SdkCatalog.Registry.Order
import SdkCatalog.Session

/-! A store: the catalogs in a directory, loaded for look-up. A load reads them one after another,
and one that fails keeps those read before. -/

namespace SdkCatalog

/-- The objects of an array of objects. -/
def Json.Value.objects? (value : Value) : Option (List Members) :=
  value.items?.bind fun items => items.mapM members?

/-- The catalog that a text spells. -/
def Catalogs.ofText (place : String) (cs : List Char) : Except Failure (List Json.Members) :=
  match Json.read cs with
  | .error (.malformed complaint remaining) =>
    .error (.catalogUnreadable place (Json.locate cs complaint remaining))
  | .error (.tooLong fault) => .error (.numeralTooLong fault)
  | .ok value =>
    match value.objects? with
    | some records => .ok records
    | none => .error (.catalogShape place)

/-- The failure that a fault in reading a catalog is. What the system refuses is a catalog that
cannot be read; a path it never sees is not. -/
def Catalogs.readFailure (place : String) : Files.TextFault → Failure
  | .file (.missing _) => .catalogMissing place
  | .file fault => if fault.isRefusal then .catalogUnreadable place fault.message else .file fault
  | .undecodable fault => .undecodable fault

def Catalogs.read (files : Files) (path : Path) : Except Failure (List Json.Members) := do
  let cs ← (files.text path).mapError (readFailure path.text)
  ofText path.text cs

/-- A directory and the catalogs loaded from it. -/
structure Store where
  directory : Path
  catalogs : Catalogs := {}

namespace Store

/-- The outcome of reading the three catalogs, and the store with those read in place. -/
def reread (store : Store) (files : Files) : Except Failure Unit × Store :=
  match Catalogs.read files (store.directory.child Catalogs.interfacesFile) with
  | .error failure => (.error failure, store)
  | .ok interfaces =>
    let store := { store with catalogs.interfaces := interfaces }
    match Catalogs.read files (store.directory.child Catalogs.eventsFile) with
    | .error failure => (.error failure, store)
    | .ok events =>
      let store := { store with catalogs.events := events }
      match Catalogs.read files (store.directory.child Catalogs.messageTypesFile) with
      | .error failure => (.error failure, store)
      | .ok messageTypes => (.ok (), { store with catalogs.messageTypes := messageTypes })

/-- Loads a store. A load that succeeds is reported. -/
def load (store : Store) : StateM Session (Except Failure Unit × Store) := do
  let (outcome, store) := store.reread (← get).files
  if outcome.isOk then
    let catalogs := store.catalogs
    modify fun session => session.report (.plain .info "stores.catalog"
      (s!"Loaded {catalogs.interfaces.length} interfaces, {catalogs.events.length} events, " ++
        s!"{catalogs.messageTypes.length} message types"))
  return (outcome, store)

end Store

namespace Catalogs

/-- The first interface of a name. -/
def findInterface (catalogs : Catalogs) (name : String) : Option Json.Members :=
  catalogs.interfaces.find? fun record => (record.get? "name").bind (·.string?) == some name

def sortedMessageTypes (catalogs : Catalogs) : List Json.Members :=
  Json.Members.sort catalogs.messageTypes

end Catalogs

end SdkCatalog
