import SdkCatalog.Command.Grammar
import SdkCatalog.Settings
import SdkCatalog.Workspace

/-! The command lines of the program: `generate`, `tools` and `call`, each with options of its own
after those that stand before the command. -/

namespace SdkCatalog.Command

inductive OptionKey where
  | help
  | verbose
  | logFile
  | outputDirectory
  | marker
  | docsDirectory
  | name
  deriving DecidableEq

namespace OptionKey

/-- The option takes a value. -/
def takesValue : OptionKey → Bool
  | help | verbose => false
  | _ => true

/-- The option ends the reading of a command line. -/
def stops (key : OptionKey) : Bool :=
  key = help

/-- The spellings that every command line has. -/
def shared : List (String × OptionKey) :=
  [("-h", help), ("--help", help), ("-v", verbose), ("--verbose", verbose)]

end OptionKey

/-- A grammar with the shared options and some of its own. -/
def grammarOf (program : String) (own : List (String × OptionKey)) (operand : Option Operand) :
    Grammar OptionKey :=
  ⟨program, OptionKey.shared ++ own, OptionKey.takesValue, OptionKey.stops, operand⟩

/-- The grammar of what stands before the command, with the command and all after it. -/
def topGrammar : Grammar OptionKey :=
  grammarOf Record.program [("--log-file", .logFile)] (some (.everything "command"))

def generateGrammar : Grammar OptionKey :=
  grammarOf (Record.program ++ " generate")
    [("--output-dir", .outputDirectory), ("--marker", .marker)] (some .optional)

def toolsGrammar : Grammar OptionKey :=
  grammarOf (Record.program ++ " tools") [("--docs-dir", .docsDirectory)] none

def callGrammar : Grammar OptionKey :=
  grammarOf (Record.program ++ " call") [("--docs-dir", .docsDirectory), ("--name", .name)]
    (some (.one "tool"))

inductive Request where
  /-- Generate the catalogs of the workspace around a path. -/
  | generate (path : String) (outputDirectory : Option Path) (marker : String)
  | tools (directory : Path)
  | call (directory : Path) (tool : String) (name : Option String)
  deriving DecidableEq

/-- A command line that can be carried out. -/
structure Arguments where
  verbose : Bool
  logFile : Option Path
  request : Request
  deriving DecidableEq

namespace Grammar.Taken

/-- The value of an option, the last one given. -/
def value? (taken : Taken OptionKey) (key : OptionKey) : Option String :=
  (taken.options.reverse.find? (·.1 = key)).bind (·.2)

def has (taken : Taken OptionKey) (key : OptionKey) : Bool :=
  taken.options.any (·.1 = key)

def docsDirectory (taken : Taken OptionKey) : Path :=
  Path.ofString ((taken.value? .docsDirectory).getD "docs")

def word? (taken : Taken OptionKey) : Option String :=
  (taken.operand.getD []).head?

end Grammar.Taken

open Grammar (Taken)

/-- The commands, each with its grammar and the request that its command line makes. -/
def commands : List (String × Grammar OptionKey × (Taken OptionKey → Request)) :=
  [("generate", generateGrammar, fun taken =>
      .generate (taken.word?.getD ".") ((taken.value? .outputDirectory).map Path.ofString)
        ((taken.value? .marker).getD Workspace.defaultMarker)),
    ("tools", toolsGrammar, fun taken => .tools taken.docsDirectory),
    ("call", callGrammar, fun taken =>
      .call taken.docsDirectory (taken.word?.getD "") (taken.value? .name))]

def find? (command : String) : Option (Grammar OptionKey × (Taken OptionKey → Request)) :=
  (commands.find? (·.1 = command)).map (·.2)

/-- What a command line asks for: none for a line that asks for help. -/
def Arguments.ofWords (words : List String) : Except Refusal (Option Arguments) := do
  let top ← topGrammar.take words
  if topGrammar.isStopped top then return none
  let command := (top.operand.getD []).headD ""
  match find? command with
  | none =>
    .error ⟨topGrammar.program, .notAmong "command" command (commands.map (·.1))⟩
  | some (grammar, request) =>
    let taken ← grammar.take ((top.operand.getD []).drop 1)
    if grammar.isStopped taken then return none
    match top.leftOver ++ taken.leftOver with
    | [] =>
      return some
        { verbose := top.has .verbose || taken.has .verbose
          logFile := (top.value? .logFile).map Path.ofString
          request := request taken }
    | leftOver => .error ⟨topGrammar.program, .leftOver leftOver⟩

end SdkCatalog.Command
