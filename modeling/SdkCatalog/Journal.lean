import SdkCatalog.Files.Tree
import SdkCatalog.Text.Utf8

/-! The journal of a command: what is reported, how urgent it is, and where it is shown. Records
go to outlets, a console or a file, each of which takes the records from some level on. -/

namespace SdkCatalog

/-- How urgent a record is: the higher the rank, the more. -/
structure Level where
  rank : Int
  deriving DecidableEq

namespace Level

def debug : Level := ⟨10⟩

def info : Level := ⟨20⟩

def warning : Level := ⟨30⟩

def error : Level := ⟨40⟩

def critical : Level := ⟨50⟩

/-- The name of a level. One between those with a name of their own is named by its rank. -/
def name (level : Level) : String :=
  if level = debug then "DEBUG"
  else if level = info then "INFO"
  else if level = warning then "WARNING"
  else if level = error then "ERROR"
  else if level = critical then "CRITICAL"
  else s!"Level {level.rank}"

/-- One level is at least as urgent as another. -/
def atLeast (level least : Level) : Bool :=
  least.rank ≤ level.rank

end Level

structure Record where
  level : Level
  /-- The part of the program that reports it, empty for the program as a whole. -/
  part : RawText
  message : RawText
  deriving DecidableEq

namespace Record

/-- A record of texts without halves. -/
def plain (level : Level) (part message : String) : Record :=
  ⟨level, .ofString part, .ofString message⟩

/-- The name of the program in the journal. -/
def program : String := "wfcdocs"

/-- The full name of a part of the program. -/
def fullName (part : RawText) : RawText :=
  if part = [] then .ofString program else .ofString (program ++ ".") ++ part

/-- The level, the full name of the reporting part and the message. -/
def line (record : Record) : RawText :=
  .ofString (record.level.name ++ " ") ++ fullName record.part ++ .ofString ": " ++ record.message

/-- The text of a record on the console. A verbose console shows which part reports. -/
def consoleText (verbose : Bool) (record : Record) : String :=
  let shownPart := if record.part = [] then program else record.part.shown
  let head := if verbose then program ++ ":" ++ shownPart else program
  s!"[{head}] {record.level.name} {record.message.shown}\n"

/-- The text of a record in a file, after the time. -/
def fileText (time : String) (record : Record) : RawText :=
  .ofString (time ++ " ") ++ record.line ++ .ofString "\n"

end Record

/-- Where records are shown. -/
inductive Outlet where
  | console (verbose : Bool)
  /-- The regular file at a location. -/
  | file (place : Location)
  deriving DecidableEq

/-- The least level of the records that an outlet takes. -/
def Outlet.least : Outlet → Level
  | console false => .info
  | console true => .debug
  | file _ => .debug

structure Journal where
  /-- The least level of the records that go to any outlet. -/
  threshold : Level := .warning
  /-- The outlets, in the order in which they take a record. -/
  outlets : List Outlet := []
  shown : String := ""
  /-- All records reported, of any level. -/
  trail : List Record := []

namespace Journal

/-- The journal once more records are on its trail. -/
def note (journal : Journal) (record : Record) : Journal :=
  { journal with trail := journal.trail ++ [record] }

/-- The outlets that take a record. -/
def takers (journal : Journal) (record : Record) : List Outlet :=
  if record.level.atLeast journal.threshold then
    journal.outlets.filter fun outlet => record.level.atLeast outlet.least
  else []

/-- The journal with nothing shown and nothing on its trail. -/
def cleared (journal : Journal) : Journal :=
  { journal with shown := "", trail := [] }

/-- The journal without the outlets to files at or below a location. -/
def detach (journal : Journal) (place : Location) : Journal :=
  { journal with
    outlets := journal.outlets.filter fun
      | .file other => !place.isPrefixOf other
      | .console _ => true }

end Journal

end SdkCatalog
