import SdkCatalog.Number.Basic
import SdkCatalog.Text.Quoted

/-! What YAML texts are read as: nodes, values and faults. -/

namespace SdkCatalog.Yaml

/-! ### Nodes

The nodes of a YAML document. Nodes refer to one another by number, so that several nodes may
share one and a node may lie inside itself. -/

/-- The kind of a node that its tag names, or another tag. -/
inductive Tag where
  | null
  | bool
  | int
  | float
  | str
  | binary
  | timestamp
  | seq
  | map
  | set
  | omap
  | pairs
  /-- The key under which a mapping takes in others. -/
  | merge
  /-- The key of the value that stands for a whole mapping. -/
  | value
  /-- A tag without a meaning here. -/
  | unknown
  deriving DecidableEq

/-- What the tags of the standard begin with. -/
def tagBase : String := "tag:yaml.org,2002:"

/-- The tag that a text names. -/
def Tag.ofText (text : String) : Tag :=
  let names : List (String × Tag) :=
    [("null", .null), ("bool", .bool), ("int", .int), ("float", .float), ("str", .str),
      ("binary", .binary), ("timestamp", .timestamp), ("seq", .seq), ("map", .map), ("set", .set),
      ("omap", .omap), ("pairs", .pairs), ("merge", .merge), ("value", .value)]
  (names.findSome? fun (name, tag) => if tagBase ++ name = text then some tag else none).getD
    .unknown

/-- A node: a text, a list of nodes, or a list of pairs of nodes. -/
inductive Node where
  | scalar (tag : Tag) (text : String)
  | sequence (tag : Tag) (items : List Nat)
  | mapping (tag : Tag) (pairs : List (Nat × Nat))
  deriving DecidableEq

def Node.tag : Node → Tag
  | .scalar tag _ => tag
  | .sequence tag _ => tag
  | .mapping tag _ => tag

structure Graph where
  nodes : Array Node
  root : Nat

/-- The node of a number; one that does not exist has no meaning. -/
def Graph.node (graph : Graph) (id : Nat) : Node :=
  graph.nodes[id]?.getD (.scalar .unknown "")

/-! ### Values -/

/-- A value. A document may refer to itself, so its values are shown to some depth only, and what
lies deeper is shown as `deeper`. -/
inductive Value where
  | null
  | bool (value : Bool)
  | number (value : Number)
  | text (value : String)
  | binary (bytes : List UInt8)
  | timestamp (text : String)
  | sequence (items : List Value)
  /-- The pairs of a mapping in order; of several with one key the last counts. -/
  | mapping (pairs : List (Value × Value))
  | set (members : List Value)
  | pairs (pairs : List (Value × Value))
  | deeper

namespace Value

/-- The value under a text in a mapping. -/
def get? (key : String) : List (Value × Value) → Option Value
  | [] => none
  | (first, value) :: rest =>
    match get? key rest with
    | some later => some later
    | none =>
      match first with
      | .text name => if name = key then some value else none
      | _ => none

end Value

/-! ### Faults

Why a YAML text has no value: it is malformed, a scalar cannot be turned into a value of its
type, or the reader fails in a way of its own. -/

/-- Why a scalar has no value of its type. -/
inductive ScalarFault where
  | notWhole (base : Nat) (text : String)
  /-- A whole number with too many digits. -/
  | tooLong (count : Numeral.TooLong)
  | notFloat (text : String)
  /-- A number without any character. -/
  | noDigits
  /-- A part of a number in base sixty that is beyond all floating point numbers. -/
  | beyondFloat
  | notBool (text : String)
  | notDate
  /-- A year of which there is none. -/
  | yearRange (year : Nat)
  | outside (part : String) (range : String)
  | dayRange
  /-- A distance from universal time, in seconds, of a day or more. -/
  | offsetRange (seconds : Int)
  /-- A number of no character. -/
  | notCharacter
  /-- A number of no character, too large to be looked at. -/
  | hugeCharacter
  /-- Pairs where the text of a date is asked for. -/
  | notText
  deriving DecidableEq

/-- A duration in days and seconds, as messages write it. -/
def durationText (seconds : Int) : String :=
  let days := seconds / 86400
  let rest := seconds % 86400
  let written := "datetime.timedelta(days=" ++ String.ofList (intText days)
  if rest = 0 then written ++ ")"
  else written ++ ", seconds=" ++ String.ofList (intText rest) ++ ")"

def ScalarFault.message : ScalarFault → String
  | .notWhole base text => s!"invalid literal for int() with base {base}: {Text.quoted text}"
  | .tooLong count => count.message
  | .notFloat text => "could not convert string to float: " ++ Text.quoted text
  | .noDigits => "string index out of range"
  | .beyondFloat => "int too large to convert to float"
  | .notBool text => text
  | .notDate => "'NoneType' object has no attribute 'groupdict'"
  | .yearRange year => s!"year {year} is out of range"
  | .outside part range => s!"{part} must be in {range}"
  | .dayRange => "day is out of range for month"
  | .offsetRange seconds =>
    "offset must be a timedelta strictly between -timedelta(hours=24) and timedelta(hours=24), " ++
      s!"not {durationText seconds}."
  | .notCharacter => "chr() arg not in range(0x110000)"
  | .hugeCharacter => "Python int too large to convert to C int"
  | .notText => "expected string or bytes-like object, got 'list'"

/-- Why a reader has no value for a text. Only a malformed text is told as one; every other fault
is a failure of the reader itself. -/
inductive Fault where
  | malformed
  | scalar (fault : ScalarFault)
  /-- A failure of a kind of its own, with its wording. -/
  | other (kind wording : String)
  deriving DecidableEq

def Fault.message : Fault → String
  | malformed => "no well-formed document"
  | scalar fault => fault.message
  | other _ wording => wording

end SdkCatalog.Yaml
