import SdkCatalog.Text.Basic

/-! What is looked for in the whole text of a source, so that it may run over several lines. -/

namespace SdkCatalog

/-! ### Events

The events of a source: static constants whose value is a text between quotes. -/

structure Event where
  name : String
  /-- The text between the quotes. -/
  value : String
  deriving DecidableEq

namespace Event

open Text

def isQuote (c : Char) : Bool :=
  c == '\'' || c == '"'

def afterQuote? : List Char → Option (List Char)
  | [] => none
  | c :: cs => if isQuote c then some cs else none

def dropSemicolon : List Char → List Char
  | ';' :: rest => rest
  | rest => rest

/-- The event declared at the head of a text, and the rest. A quote of either kind ends its value,
whichever opened it. -/
def step (cs : List Char) : Option (Event × List Char) := do
  let rest ← afterString? "static" cs
  let rest ← afterBlanks? rest
  let (name, rest) ← identifier? rest
  let rest ← after? ['='] (trimStart rest)
  let rest ← afterQuote? (trimStart rest)
  let (value, rest) ← run? (!isQuote ·) rest
  let rest ← afterQuote? rest
  some (⟨String.ofList name, String.ofList value⟩, dropSemicolon rest)

/-- The events of a source in order; a name may occur more than once. -/
def ofSource (source : String) : List Event :=
  scan step 0 source.toList

end Event

/-! ### Registrations

The message configuration of a client: object literals that register a message under a name,
with references to a flag, to a content type and to a message class. -/

/-- One registered message, its references not yet looked up. -/
structure Registration where
  name : String
  /-- The flag, word for word. -/
  flag : String
  contentType : String
  className : String
  deriving DecidableEq

namespace Registration

open Text

/-- The namespace of content types when no other is set. -/
def defaultNamespace : String := "MessageContentType"

/-- The first answer of a step tried after any number of the blanks at the head of a text, as many
as possible first. -/
def pastBlanks? {α : Type} (step : List Char → Option α) : List Char → Option α
  | [] => step []
  | c :: cs => if isBlank c then (pastBlanks? step cs).or (step (c :: cs)) else step (c :: cs)

/-- The text after blanks and a fixed string. -/
def token? (expected : String) (cs : List Char) : Option (List Char) :=
  afterString? expected (trimStart cs)

/-- The registration at the head of a text, and the rest. -/
def step (typeNamespace : String) (cs : List Char) : Option (Registration × List Char) := do
  let rest ← after? ['{'] cs
  let rest ← token? "name:" rest
  let rest ← token? "'" rest
  let (name, rest) ← run? (· != '\'') rest
  let rest ← after? ['\''] rest
  let rest ← token? "," rest
  let rest ← token? "flag:" rest
  let (flag, rest) ← run? (· != ',') rest
  let rest ← after? [','] rest
  let rest ← token? "type:" rest
  let rest ← pastBlanks? (afterString? (typeNamespace ++ ".")) rest
  let (contentType, rest) ← run? isWordChar rest
  let rest ← token? "," rest
  let rest ← token? "contentClazz:" rest
  let (className, rest) ← run? isWordChar (trimStart rest)
  let rest ← token? "\x7d" rest
  some (⟨String.ofList name, String.ofList (trim flag), String.ofList contentType,
    String.ofList className⟩, rest)

/-- The registrations of a source in order, with content types of the given namespace. -/
def ofSource (typeNamespace source : String) : List Registration :=
  scan (step typeNamespace) 0 source.toList

end Registration

end SdkCatalog
