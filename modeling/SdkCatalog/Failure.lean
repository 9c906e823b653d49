import SdkCatalog.Files.Basic
import SdkCatalog.Number.Basic
import SdkCatalog.Yaml.Basic

/-! Why a command fails, and in which words. -/

namespace SdkCatalog

/-- The name of the settings file. -/
def settingsFile : String := ".wfcdocs.yml"

inductive Failure where
  | settingsNotMapping
  /-- The settings name class suffixes, but none that could be used. -/
  | noClassSuffix
  | settingsMalformed (file : String)
  /-- The reader of the settings fails, though not on a malformed text. -/
  | settingsUnread (fault : Yaml.Fault)
  | noWorkspace (start marker : String)
  | outputDirectory (directory : String) (fault : FileFault)
  | artifact (file : String) (fault : FileFault)
  | catalogMissing (file : String)
  | catalogUnreadable (file reason : String)
  | catalogShape (file : String)
  | missingArgument (tool argument : String)
  | argumentNotString (argument tool : String)
  | unknownTool (name : String)
  | toolTaken (name : String)
  /-- No home directory is known for the name after a tilde. -/
  | homeUnknown
  /-- An operation on a file fails. -/
  | file (fault : FileFault)
  /-- The bytes of a file spell no text. -/
  | undecodable (fault : Utf8.Fault)
  /-- A whole number has too many digits to be read. -/
  | numeralTooLong (fault : Numeral.TooLong)
  /-- A whole number has too many digits to be written. -/
  | numberTooLong
  deriving DecidableEq

namespace Failure

def message : Failure → String
  | settingsNotMapping => settingsFile ++ " must contain a mapping at the root"
  | noClassSuffix => "extraction.class_suffixes must list at least one suffix"
  | settingsMalformed place => s!"Failed to parse {place}: {Yaml.Fault.malformed.message}"
  | settingsUnread fault => fault.message
  | noWorkspace start marker =>
    s!"Failed to locate workspace root from {start} (no {marker} found)"
  | outputDirectory directory fault =>
    s!"Failed to create output directory {directory}: {fault.message}"
  | artifact place fault => s!"Failed to write {place}: {fault.message}"
  | catalogMissing place => s!"Catalog file not found: {place}"
  | catalogUnreadable place reason => s!"Failed to load catalog {place}: {reason}"
  | catalogShape place => s!"Catalog {place} must contain a JSON array of objects"
  | missingArgument tool argument => s!"Tool '{tool}' requires argument '{argument}'"
  | argumentNotString argument tool =>
    s!"Argument '{argument}' for tool '{tool}' must be a string"
  | unknownTool name => s!"Unknown tool: {name}"
  | toolTaken name => s!"Tool '{name}' is already registered"
  | homeUnknown => "Could not determine home directory."
  | .file fault => fault.message
  | undecodable fault => fault.message
  | numeralTooLong fault => fault.message
  | numberTooLong =>
    "Exceeds the limit (4300 digits) for integer string conversion; " ++
      "use sys.set_int_max_str_digits() to increase the limit"

/-- The wording of a failure inside a longer message, where a word that was looked up in vain stands
between quotes. -/
def quotedMessage (failure : Failure) : String :=
  match failure with
  | settingsUnread (.scalar (.notBool _)) | unknownTool _ => Text.quoted failure.message
  | _ => failure.message

def ofTextFault : Files.TextFault → Failure
  | .file fault => file fault
  | .undecodable fault => undecodable fault

end Failure

end SdkCatalog
