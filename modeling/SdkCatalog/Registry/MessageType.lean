import SdkCatalog.Source.Line
import SdkCatalog.Source.Scan

/-! Message types: registrations joined with the constants and classes that they refer to. What a
reference does not find stays empty. -/

namespace SdkCatalog

/-! ### Tables

A name keeps the place of its first entry and the value of its last. -/

/-- Values under distinct names, in the order in which the names came. -/
abbrev Table (α : Type) := List (String × α)

namespace Table

variable {α : Type}

def get? (table : Table α) (name : String) : Option α :=
  (table.find? (·.1 = name)).map (·.2)

def insert : Table α → String → α → Table α
  | [], name, value => [(name, value)]
  | (first, old) :: rest, name, value =>
    if first = name then (first, value) :: rest else (first, old) :: insert rest name value

/-- The table of values folded in order under the names that they have. -/
def ofList (name : α → String) (values : List α) : Table α :=
  values.foldl (fun table value => table.insert (name value) value) []

/-- What a table holds under a name after an insertion. -/
theorem get?_insert (table : Table α) (name other : String) (value : α) :
    (table.insert name value).get? other =
      if name = other then some value else table.get? other := by
  induction table with
  | nil => by_cases h : name = other <;> simp [insert, get?, h]
  | cons entry rest ih =>
    obtain ⟨first, old⟩ := entry
    simp only [get?] at ih
    by_cases h1 : first = name <;> by_cases h2 : first = other <;> by_cases h3 : name = other <;>
      simp_all [insert, get?]

end Table

/-! ### Message types -/

/-- A message type with everything its registration refers to. -/
structure MessageType where
  name : String
  flag : String
  flagValue : Option Number := none
  flagDoc : Option String := none
  contentType : String
  typeValue : Option Number := none
  typeDoc : Option String := none
  className : String
  classFile : Option String := none
  base : Option String := none
  doc : Option String := none
  deriving DecidableEq

namespace MessageType

/-- What registrations refer to: content types, flags and classes by name. -/
structure References where
  contentTypes : Table Constant
  flags : Table Constant
  classes : Table ClassDeclaration

/-- The references that lists of declarations give, the last of each name counting. -/
def References.ofLists (contentTypes flags : List Constant) (classes : List ClassDeclaration) :
    References :=
  ⟨Table.ofList Constant.name contentTypes, Table.ofList Constant.name flags,
    Table.ofList ClassDeclaration.name classes⟩

/-- The message type of a registration. The flag is looked up word for word. -/
def ofRegistration (references : References) (entry : Registration) : MessageType :=
  let contentType := references.contentTypes.get? entry.contentType
  let flag := references.flags.get? entry.flag
  let declaration := references.classes.get? entry.className
  { name := entry.name
    flag := entry.flag
    flagValue := flag.map (·.value)
    flagDoc := flag.bind (·.doc)
    contentType := entry.contentType
    typeValue := contentType.map (·.value)
    typeDoc := contentType.bind (·.doc)
    className := entry.className
    classFile := declaration.map (·.file)
    base := declaration.bind (·.base)
    doc := declaration.bind (·.doc) }

def join (references : References) (entries : List Registration) : List MessageType :=
  entries.map (ofRegistration references)

end MessageType

end SdkCatalog
