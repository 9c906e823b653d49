import SdkCatalog.Text.Utf8
import SdkCatalog.Yaml.Basic
import SdkCatalog.Yaml.Cursor

/-! Tags, anchors and directives as they are written. A tag is a handle and a suffix, or a suffix
alone; the suffix may give bytes by number. -/

namespace SdkCatalog.Yaml.TagText

/-- A letter, digit, hyphen or underscore of ASCII. -/
def isNameChar (c : Char) : Bool :=
  c.isAlphanum || c == '-' || c == '_'

/-- A character of a suffix that stands for itself. -/
def isSuffixChar (c : Char) : Bool :=
  c.isAlphanum || "-;/?:@&=+$,_.!~*'()[]".toList.contains c

/-- The bytes given by number here, and the place after them. -/
def bytes : Nat → Cursor → Except Fault (List UInt8 × Cursor)
  | 0, c => .ok ([], c)
  | steps + 1, c =>
    if c.peek = '%' then
      match Text.digitIn? 16 (c.peekAt 1), Text.digitIn? 16 (c.peekAt 2) with
      | some high, some low =>
        (bytes steps (c.skip 3)).map fun (more, place) =>
          (UInt8.ofNat (high * 16 + low) :: more, place)
      | _, _ => .error .malformed
    else .ok ([], c)

/-- The characters of a suffix here, and the place after them. -/
def suffixFrom : Nat → Cursor → Except Fault (List Char × Cursor)
  | 0, c => .ok ([], c)
  | steps + 1, c => do
    if c.peek = '%' then
      let (found, after) ← bytes (c.rest.length + 1) c
      match Utf8.decode found with
      | .error _ => .error .malformed
      | .ok text =>
        let (more, place) ← suffixFrom steps after
        .ok (text ++ more, place)
    else if isSuffixChar c.peek then
      let (more, place) ← suffixFrom steps c.next
      .ok (c.peek :: more, place)
    else .ok ([], c)

/-- The suffix here, which must not be empty, and the place after it. -/
def suffix (c : Cursor) : Except Fault (String × Cursor) := do
  let (text, place) ← suffixFrom (c.rest.length + 1) c
  if place.index = c.index then .error .malformed else .ok (String.ofList text, place)

/-- The handle that opens with the exclamation mark here, and the place after it: the mark alone
before a space, or two marks with a name between them. -/
def handle (c : Cursor) : Except Fault (String × Cursor) :=
  if c.peek != '!' then .error .malformed
  else if c.next.peek = ' ' then .ok ("!", c.next)
  else
    let (name, after) := c.next.takeWhile isNameChar
    if after.peek = '!' then .ok (String.ofList ('!' :: (name ++ ['!'])), after.next)
    else .error .malformed

/-- A tag: its handle, unless it is written out in full, and its suffix. -/
structure Tag where
  handle : Option String
  suffix : String

/-- A second exclamation mark stands before the next gap. -/
def hasSecondMark (c : Cursor) : Bool :=
  (c.next.rest.takeWhile (!isSpaceOrEnd ·)).contains '!'

/-- The tag that opens with the exclamation mark here, and the place after it. -/
def tag (c : Cursor) : Except Fault (Tag × Cursor) := do
  let (found, after) ←
    if c.next.peek = '<' then do
      let (text, after) ← suffix (c.skip 2)
      if after.peek = '>' then .ok (Tag.mk none text, after.next) else .error .malformed
    else if isGapOrEnd c.next.peek then .ok (Tag.mk none "!", c.next)
    else if hasSecondMark c then do
      let (name, after) ← handle c
      let (text, place) ← suffix after
      .ok (Tag.mk (some name) text, place)
    else do
      let (text, place) ← suffix c.next
      .ok (Tag.mk (some "!") text, place)
  if isSpaceOrEnd after.peek then .ok (found, after) else .error .malformed

/-- A character that may follow the name of an anchor or of an alias. -/
def endsAnchor (c : Char) : Bool :=
  isGapOrEnd c || "?:,]\x7d%@`".toList.contains c

/-- The name after the mark of an anchor or an alias here, and the place after it. -/
def anchor (c : Cursor) : Except Fault (String × Cursor) :=
  let (name, after) := c.next.takeWhile isNameChar
  if name.isEmpty || !endsAnchor after.peek then .error .malformed
  else .ok (String.ofList name, after)

/-- A line that tells how the document after it is to be read. -/
inductive Directive where
  | version (major : Nat)
  | handle (name text : String)
  | other

/-- The digits of a version number here, and the place after them. -/
def versionNumber (c : Cursor) : Except Fault (Nat × Cursor) :=
  let (digits, after) := c.takeWhile Char.isDigit
  if digits.isEmpty then .error .malformed
  else if digitLimit < digits.length then .error (.scalar (.tooLong ⟨digits.length⟩))
  else .ok (Text.ofDigits 10 (digits.filterMap (Text.digitIn? 10)), after)

/-- The version after a directive's name, and the place after it. -/
def version (c : Cursor) : Except Fault (Directive × Cursor) := do
  let (major, afterMajor) ← versionNumber (c.dropWhile (· == ' '))
  if afterMajor.peek != '.' then .error .malformed
  else
    let (_, after) ← versionNumber afterMajor.next
    if isSpaceOrEnd after.peek then .ok (.version major, after) else .error .malformed

def handleText (c : Cursor) : Except Fault (Directive × Cursor) := do
  let (name, afterName) ← handle (c.dropWhile (· == ' '))
  if afterName.peek != ' ' then .error .malformed
  else
    let (text, after) ← suffix (afterName.dropWhile (· == ' '))
    if isSpaceOrEnd after.peek then .ok (.handle name text, after) else .error .malformed

/-- The directive that opens with the percent sign here, and the place after its line. -/
def directive (c : Cursor) : Except Fault (Directive × Cursor) := do
  let (name, afterName) := c.next.takeWhile isNameChar
  if name.isEmpty || !isSpaceOrEnd afterName.peek then .error .malformed
  else
    let (found, after) ←
      if name = "YAML".toList then version afterName
      else if name = "TAG".toList then handleText afterName
      else .ok (.other, afterName.dropWhile (!isBreakOrEnd ·))
    let place := after.dropComment
    if isBreakOrEnd place.peek then .ok (found, place.dropBreak) else .error .malformed

end SdkCatalog.Yaml.TagText
