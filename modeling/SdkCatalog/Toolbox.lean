import SdkCatalog.Catalog.Store
import SdkCatalog.Json.Writer

/-! Tools over the catalogs, and toolboxes: tools of distinct names, called by name. -/

namespace SdkCatalog

/-! ### Tools

A tool declares its arguments by a schema, and a call hands it the declared arguments alone,
after they are checked. -/

/-- A named tool. Its handler answers a text for the catalogs that are loaded at the time and the
accepted arguments. -/
structure Tool where
  name : String
  description : String
  /-- The members of the schema of the arguments. -/
  schema : Json.Members
  handler : Catalogs → Json.Members → Except Failure String

namespace Tool

/-- A schema that declares some properties and requires some of them. -/
def schemaOf (properties : Json.Members) (required : List String) : Json.Members :=
  [("type", .str "object"), ("properties", .obj properties), ("required", .arr (required.map .str))]

def emptySchema : Json.Members :=
  schemaOf [] []

def properties (tool : Tool) : Json.Members :=
  ((tool.schema.get? "properties").bind Json.Value.members?).getD []

def required (tool : Tool) : List String :=
  (((tool.schema.get? "required").bind Json.Value.items?).getD []).filterMap Json.Value.string?

/-- What a tool asks of an argument. -/
inductive Demand where
  /-- The argument is not declared, or declared as null. -/
  | undeclared
  | string
  | anything
  deriving DecidableEq

/-- What a tool asks of the argument under a key. -/
def demand (tool : Tool) (key : String) : Demand :=
  match tool.properties.get? key with
  | none | some .null => .undeclared
  | some (.obj property) =>
    if (Json.Members.get? property "type").bind Json.Value.string? = some "string" then .string
    else .anything
  | some _ => .anything

/-- The first required argument that is missing. -/
def missing? (tool : Tool) (arguments : Json.Members) : Option String :=
  tool.required.find? fun key => (arguments.get? key).isNone

/-- The first argument that should be a string and is not. -/
def mistyped? (tool : Tool) (arguments : Json.Members) : Option String :=
  (arguments.find? fun (key, value) =>
    tool.demand key = .string && value.string?.isNone).map (·.1)

/-- The declared arguments of a call in the order in which they are given, if none that is required
is missing and each has its type. -/
def accept (tool : Tool) (arguments : Json.Members) : Except Failure Json.Members :=
  match tool.missing? arguments, tool.mistyped? arguments with
  | some key, _ => .error (.missingArgument tool.name key)
  | none, some key => .error (.argumentNotString key tool.name)
  | none, none => .ok (arguments.filter fun (key, _) => tool.demand key != .undeclared)

def textOf (value : Json.Value) : Except Failure String :=
  match value.write? with
  | some text => .ok text
  | none => .error .numberTooLong

def recordsText (records : List Json.Members) : Except Failure String :=
  textOf (.arr (records.map .obj))

/-- A value that counts as nothing: null, false, zero or empty. -/
def isNothing : Json.Value → Bool
  | .null | .bool false | .str "" | .arr [] | .obj [] => true
  | .number (.int value) => value == 0
  | .number (.float (.finite value)) => value.rank == 0
  | _ => false

/-- The documentation of an interface record: its name, its parameters and its comment. -/
def documentation (record : Json.Members) : Json.Value :=
  let doc := (record.get? "jsdoc").getD .null
  .obj [("name", (record.get? "name").getD .null),
    ("params", (record.get? "params").getD (.arr [])),
    ("jsdoc", if isNothing doc then .str "" else doc)]

def interfaceList : Tool :=
  ⟨"get-interface-list", "List SDK method names and their parameters.", emptySchema,
    fun catalogs _ => recordsText catalogs.interfaces⟩

/-- Shows the documentation of the interface whose name is given. -/
def interfaceDocs : Tool :=
  ⟨"get-interface-docs", "Return the documentation of one SDK method by name.",
    schemaOf [("name", .obj [("type", .str "string"),
      ("description", .str "Method name, e.g. getUserId")])] ["name"],
    fun catalogs arguments =>
      match (arguments.get? "name").bind Json.Value.string? with
      | none => .error (.missingArgument "get-interface-docs" "name")
      | some name =>
        match catalogs.findInterface name with
        | none => .ok ("Interface not found: " ++ name)
        | some record => textOf (documentation record)⟩

def eventList : Tool :=
  ⟨"get-event-list", "List SDK event names and values.", emptySchema,
    fun catalogs _ => recordsText catalogs.events⟩

/-- Lists the message types in the order of their values. -/
def messageTypes : Tool :=
  ⟨"get-message-types", "List message types ordered by content type value.", emptySchema,
    fun catalogs _ => recordsText catalogs.sortedMessageTypes⟩

end Tool

/-! ### Toolboxes -/

/-- Tools in the order in which they were registered. No two have one name. -/
structure Toolbox where
  tools : List Tool
  distinct : (tools.map Tool.name).Nodup

namespace Toolbox

def empty : Toolbox :=
  ⟨[], by simp⟩

def standard : Toolbox :=
  ⟨[.interfaceList, .interfaceDocs, .eventList, .messageTypes], by decide⟩

def get? (box : Toolbox) (name : String) : Option Tool :=
  box.tools.find? (·.name = name)

/-- The tool of a name, which must be there. -/
def get (box : Toolbox) (name : String) : Except Failure Tool :=
  match box.get? name with
  | some tool => .ok tool
  | none => .error (.unknownTool name)

/-- The toolbox with a tool added at the end. A name that is taken stays with its tool. -/
def register (box : Toolbox) (tool : Tool) : Except Failure Toolbox :=
  if h : tool.name ∈ box.tools.map Tool.name then .error (.toolTaken tool.name)
  else
    .ok ⟨box.tools ++ [tool], by
      simp only [List.map_append, List.map_cons, List.map_nil]
      exact List.nodup_append.mpr ⟨box.distinct, by simp, by
        intro a ha b hb
        simp only [List.mem_singleton] at hb
        rintro rfl
        exact h (hb ▸ ha)⟩⟩

/-- Calls the tool of a name. The accepted arguments are reported by name before it runs. -/
def call (box : Toolbox) (catalogs : Catalogs) (name : String) (arguments : Json.Members) :
    Action String := do
  let tool ← Action.orFail id (box.get name)
  let accepted ← Action.orFail id (tool.accept arguments)
  let keys := (accepted.map (·.1)).mergeSort fun a b => a ≤ b
  Action.report .debug "tools" s!"Calling tool {name} with {Text.quotedList keys}"
  Action.orFail id (tool.handler catalogs accepted)

end Toolbox

end SdkCatalog
