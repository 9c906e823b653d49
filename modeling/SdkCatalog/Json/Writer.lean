import SdkCatalog.Json.Value
import SdkCatalog.Number.Basic
import SdkCatalog.Number.Double
import SdkCatalog.Text.Quoted

/-! Writing JSON on several lines: two spaces for each level, one item or member on a line, and
all characters but quotes, backslashes and controls as they are. -/

namespace SdkCatalog

namespace Json

def writeChar (c : Char) : List Char :=
  if c = '"' then ['\\', '"']
  else if c = '\\' then ['\\', '\\']
  else if c = '\n' then ['\\', 'n']
  else if c = '\r' then ['\\', 'r']
  else if c = '\t' then ['\\', 't']
  else if c = '\x08' then ['\\', 'b']
  else if c = '\x0c' then ['\\', 'f']
  else if c.toNat < 0x20 then '\\' :: 'u' :: Text.hexDigits 4 c.toNat
  else [c]

def writeString (text : String) : List Char :=
  '"' :: (text.toList.flatMap writeChar ++ ['"'])

/-- A number; what is not finite is written as a word. -/
def writeNumber : Number → List Char
  | .int value => intText value
  | .float value => value.textWith "Infinity" "NaN"

/-- A line break and the indentation of a level. -/
def newline (level : Nat) : List Char :=
  '\n' :: List.replicate (2 * level) ' '

namespace Value

mutual

/-- The text of a value whose first line starts at a level. -/
def render (level : Nat) : Value → List Char
  | .null => "null".toList
  | .bool true => "true".toList
  | .bool false => "false".toList
  | .number value => writeNumber value
  | .str text => writeString text
  | .arr [] => ['[', ']']
  | .arr (item :: rest) =>
    '[' :: (newline (level + 1) ++ render (level + 1) item ++ renderItems (level + 1) rest ++
      newline level ++ [']'])
  | .obj [] => ['{', '}']
  | .obj ((key, value) :: rest) =>
    '{' :: (newline (level + 1) ++ writeString key ++ [':', ' '] ++ render (level + 1) value ++
      renderMembers (level + 1) rest ++ newline level ++ ['}'])

/-- The items after the first, each after a comma and on a line of its own. -/
def renderItems (level : Nat) : List Value → List Char
  | [] => []
  | item :: rest => ',' :: (newline level ++ render level item ++ renderItems level rest)

/-- The members after the first, each after a comma and on a line of its own. -/
def renderMembers (level : Nat) : List (String × Value) → List Char
  | [] => []
  | (key, value) :: rest =>
    ',' :: (newline level ++ writeString key ++ [':', ' '] ++ render level value ++
      renderMembers level rest)

end

mutual

/-- Every whole number in a value has few enough digits to be written. -/
def writable : Value → Bool
  | .number value => value.isWritable
  | .arr items => itemsWritable items
  | .obj members => membersWritable members
  | _ => true

def itemsWritable : List Value → Bool
  | [] => true
  | item :: rest => item.writable && itemsWritable rest

def membersWritable : List (String × Value) → Bool
  | [] => true
  | (_, value) :: rest => value.writable && membersWritable rest

end

/-- The text of a value, unless a whole number in it is too long to be written. -/
def write? (value : Value) : Option String :=
  if value.writable then some (String.ofList (value.render 0)) else none

end Value

end Json

end SdkCatalog
