import SdkCatalog.Failure
import SdkCatalog.Files.Basic
import SdkCatalog.Journal

/-! A session: the files that commands work on and the journal in which they report. An action
changes a session and may fail; what it did before the failure stays done. -/

namespace SdkCatalog

/-- The files and the journal of a session, and the time that file outlets write. -/
structure Session where
  files : Files
  journal : Journal := {}
  time : String := ""

namespace Session

/-- The session once an outlet has taken a record. In a file a record is lost if its text has no
bytes. -/
def deliver (record : Record) (session : Session) : Outlet → Session
  | .console verbose =>
    { session with
      journal.shown := session.journal.shown ++ record.consoleText verbose }
  | .file place =>
    let content? := (record.fileText session.time).encode?
    { session with files := content?.elim session.files (session.files.append place) }

def report (session : Session) (record : Record) : Session :=
  let takers := session.journal.takers record
  takers.foldl (deliver record) { session with journal := session.journal.note record }

end Session

/-- A change of a session that may fail. -/
abbrev Action (α : Type) := ExceptT Failure (StateM Session) α

namespace Action

/-- Reports a message of a part of the program. -/
def report (level : Level) (part message : String) : Action Unit :=
  modify fun session => session.report (.plain level part message)

/-- An answer of the files as they are. -/
def ask {α : Type} (question : Files → α) : Action α := do
  return question (← get).files

/-- The answer of a question that may fail. -/
def orFail {α ε : Type} (failure : ε → Failure) : Except ε α → Action α
  | .ok value => pure value
  | .error fault => throw (failure fault)

/-- An answer of the files as they are, unless the question fails. -/
def inquire {α : Type} (question : Files → Except Failure α) : Action α := do
  orFail id (question (← get).files)

def change (failure : FileFault → Failure) (update : Files → Except FileFault Files) :
    Action Unit := do
  let files ← orFail failure (update (← get).files)
  modify fun session => { session with files }

/-- Makes a directory and those above it, unless they are there. -/
def ensureDirectory (failure : FileFault → Failure) (path : Path) : Action Unit := do
  let (outcome, files) := (← get).files.ensureDirectory path
  modify fun session => { session with files }
  orFail failure outcome

end Action

/-- Takes up a journal anew: a console that shows records from the level of information on, or all
of them and their parts when verbose, and a file that gets all, if one is named. The outlets of
before are closed first, so none is ever doubled; if the file cannot be opened the console stays.
The answer is the number of outlets. -/
def Journal.configure (verbose : Bool) (logFile : Option Path) : Action Nat := do
  let console := Outlet.console verbose
  let threshold := if logFile.isSome then Level.debug else console.least
  modify fun session =>
    { session with journal := { session.journal with threshold, outlets := [console] } }
  match logFile with
  | none => pure ()
  | some path =>
    Action.ensureDirectory .file path.parent
    let (place, files) ← Action.orFail .file ((← get).files.openForAppending path)
    modify fun session =>
      { session with
        files
        journal := { session.journal with outlets := [console, .file place] } }
  return (← get).journal.outlets.length

end SdkCatalog
