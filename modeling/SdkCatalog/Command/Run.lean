import SdkCatalog.Catalog.Generation
import SdkCatalog.Command.Arguments
import SdkCatalog.Toolbox

/-! Carrying out a command line. A failure that the command foresees becomes a message and an exit
status; any other is handed on. -/

namespace SdkCatalog.Command

/-- How a command line ends. -/
inductive Outcome where
  /-- With a status, a text on the standard output, and a last text on the standard error. -/
  | exit (status : Nat) (output errors : String)
  /-- With a failure that no message was made of. -/
  | failed (failure : Failure)
  deriving DecidableEq

def Outcome.printed (output : String) : Outcome :=
  exit 0 output ""

def Outcome.refused (errors : String) : Outcome :=
  exit 1 "" errors

/-- The path as seen from a directory if it lies below it, and otherwise the path itself. -/
def relativeText (directory path : Path) : String :=
  ((directory.below? path).getD path).text

/-- The report of a generation: a line for each file. -/
def generationText (here : Path) (generation : Generation) : String :=
  let counts := [generation.extract.interfaces.length, generation.extract.events.length,
    generation.extract.messageTypes.length]
  String.join ((generation.written.zip counts).map fun ((_, path), count) =>
    s!"{relativeText here path} updated with {count} entries\n")

/-- The failure is one of those that a generation foresees. -/
def isForeseen : Failure → Bool
  | .settingsNotMapping | .noClassSuffix | .settingsMalformed _ | .noWorkspace _ _
  | .outputDirectory _ _ | .artifact _ _ => true
  | _ => false

def generationFailure (failure : Failure) : String :=
  let text := s!"wfcdocs generate failed: {failure.quotedMessage}\n"
  if isForeseen failure then text else text ++ "Run with --verbose for more details.\n"

/-- Generates the catalogs and reports them. They are written even where the report fails. -/
def generate (path : String) (outputDirectory : Option Path) (marker : String) :
    StateM Session Outcome := do
  match ← (Generation.run (Path.ofString path) outputDirectory marker).run with
  | .ok generation =>
    match (← get).files.here with
    | .ok here => return .printed (generationText here generation)
    | .error fault => return .failed (.file fault)
  | .error failure => return .refused (generationFailure failure)

/-- Goes on with the catalogs in a directory, once they are loaded. -/
def withCatalogs (directory : Path) (next : Catalogs → StateM Session Outcome) :
    StateM Session Outcome := do
  let (outcome, store) ← Store.load { directory }
  match outcome with
  | .ok () => next store.catalogs
  | .error failure =>
    match failure with
    | .catalogMissing _ | .catalogUnreadable _ _ | .catalogShape _ =>
      return .refused (failure.message ++ "\n")
    | _ => return .failed failure

def toolsText : String :=
  String.join (Toolbox.standard.tools.map fun tool => s!"{tool.name}\t{tool.description}\n")

def call (catalogs : Catalogs) (tool : String) (name : Option String) :
    StateM Session Outcome := do
  let arguments : Json.Members := name.toList.map fun name => ("name", .str name)
  match ← (Toolbox.standard.call catalogs tool arguments).run with
  | .ok text => return .printed (text ++ "\n")
  | .error failure =>
    match failure with
    | .unknownTool _ | .missingArgument _ _ | .argumentNotString _ _ =>
      return .refused (failure.message ++ "\n")
    | _ => return .failed failure

def Request.run : Request → StateM Session Outcome
  | .generate path outputDirectory marker => Command.generate path outputDirectory marker
  | .tools directory => withCatalogs directory fun _ => return .printed toolsText
  | .call directory tool name => withCatalogs directory fun catalogs =>
      Command.call catalogs tool name

/-- What a line that asks for help is answered. -/
def helpText : String :=
  "usage: wfcdocs [-h] [-v] [--log-file LOG_FILE] \x7bgenerate,tools,call\x7d ...\n"

def run (words : List String) : StateM Session Outcome := do
  match Arguments.ofWords words with
  | .error refusal => return .exit 2 "" (refusal.message ++ "\n")
  | .ok none => return .printed helpText
  | .ok (some arguments) =>
    match ← (Journal.configure arguments.verbose arguments.logFile).run with
    | .error failure => return .failed failure
    | .ok _ => arguments.request.run

end SdkCatalog.Command
