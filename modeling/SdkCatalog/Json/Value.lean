import SdkCatalog.Number.Basic

/-! JSON values. An object keeps its members in order, and no two members have one key. -/

namespace SdkCatalog.Json

inductive Value where
  | null
  | bool (value : Bool)
  | number (value : Number)
  | str (value : String)
  | arr (items : List Value)
  | obj (members : List (String × Value))

/-- The members of an object, its keys in order of first appearance. -/
abbrev Members := List (String × Value)

/-- The value under a key. -/
def Members.get? (members : Members) (key : String) : Option Value :=
  (members.find? (·.1 = key)).map (·.2)

/-- The members with a value put under a key: in the place of the key, or at the end. -/
def Members.put : Members → String → Value → Members
  | [], key, value => [(key, value)]
  | (first, old) :: rest, key, value =>
    if first = key then (first, value) :: rest else (first, old) :: Members.put rest key value

/-- The members that pairs give in order: a repeated key keeps its place and takes its last
value. -/
def Members.ofPairs (pairs : List (String × Value)) : Members :=
  pairs.foldl (fun members pair => Members.put members pair.1 pair.2) []

namespace Value

def string? : Value → Option String
  | .str value => some value
  | _ => none

def members? : Value → Option Members
  | .obj members => some members
  | _ => none

def items? : Value → Option (List Value)
  | .arr items => some items
  | _ => none

end Value

inductive Kind where
  | null
  | bool
  | int
  | float
  | str
  | arr
  deriving DecidableEq

def Kind.name : Kind → String
  | .null => "NoneType"
  | .bool => "bool"
  | .int => "int"
  | .float => "float"
  | .str => "str"
  | .arr => "list"

/-- The members of an object, or the kind of another value. -/
def Value.record : Value → Except Kind Members
  | .obj members => .ok members
  | .null => .error .null
  | .bool _ => .error .bool
  | .number (.int _) => .error .int
  | .number (.float _) => .error .float
  | .str _ => .error .str
  | .arr _ => .error .arr

end SdkCatalog.Json
