import SdkCatalog.Yaml.Basic
import SdkCatalog.Yaml.Cursor

/-! The texts of scalars as they are written: plain, between quotes, and in blocks. -/

namespace SdkCatalog.Yaml

/-! ### Plain texts

Text without quotes. It ends before a comment, before a colon that a gap follows, and, between
brackets, before punctuation; line breaks in it are folded. -/

namespace PlainText

/-- The punctuation that ends plain text between brackets. -/
def isFlowEnd (c : Char) : Bool :=
  [',', '?', '[', ']', '{', '}'].contains c

/-- The punctuation before which a colon ends plain text between brackets. -/
def isAfterColon (c : Char) : Bool :=
  [',', '[', ']', '{', '}'].contains c

/-- The text goes on with a character of plain text, inside brackets or not. -/
def continues (inFlow : Bool) : List Char → Bool
  | [] => false
  | c :: rest =>
    let next := rest.head?.getD endMark
    !(isGapOrEnd c || (c == ':' && (isGapOrEnd next || (inFlow && isAfterColon next))) ||
      (inFlow && isFlowEnd c))

/-- What lies between two runs of plain text: the text it stands for, the place after it, and
whether it holds a line break. -/
structure Gap where
  text : List Char
  place : Cursor
  broken : Bool

/-- The line breaks that follow one another here, spaces aside, the place after them, and whether
the document ends at the last of them. -/
def breaks : Nat → Cursor → List Char × Cursor × Bool
  | 0, c => ([], c, false)
  | steps + 1, c =>
    if c.peek = ' ' then breaks steps c.next
    else
      match c.lineBreak? with
      | none => ([], c, false)
      | some (char, after) =>
        if after.atDocumentMark then ([], after, true)
        else
          let (more, place, ended) := breaks steps after
          (char :: more, place, ended)

/-- The gap here. One line break stands for a space, each further one for itself. A gap in which
the document ends stands for nothing. -/
def gap (c : Cursor) : Gap :=
  let (spaces, c) := c.takeWhile (· == ' ')
  match c.lineBreak? with
  | none => ⟨spaces, c, false⟩
  | some (first, after) =>
    if after.atDocumentMark then ⟨[], after, true⟩
    else
      let (more, place, ended) := breaks after.rest.length after
      let start := if first != '\n' then [first] else if more.isEmpty then [' '] else []
      ⟨if ended then [] else start ++ more, place, true⟩

/-- The plain text here after a gap, the place after it, and whether the last gap holds a line
break. Outside brackets the text goes on only on lines indented by at least `indent`. -/
def scanFrom (inFlow : Bool) (indent : Int) : Nat → Gap → List Char × Cursor × Bool
  | 0, before => ([], before.place, before.broken)
  | steps + 1, before =>
    if before.place.peek = '#' then ([], before.place, before.broken)
    else
      let (run, c) := before.place.takeRun (continues inFlow)
      if run.isEmpty then ([], before.place, before.broken)
      else
        let after := gap c
        if after.text.isEmpty || after.place.peek == '#' ||
            (!inFlow && after.place.column < indent) then
          (before.text ++ run, after.place, after.broken)
        else
          let (more, place, broken) := scanFrom inFlow indent steps after
          (before.text ++ run ++ more, place, broken)

/-- The plain text at a place, the place after it and whether a line break stands before that. -/
def scan (inFlow : Bool) (indent : Int) (c : Cursor) : List Char × Cursor × Bool :=
  scanFrom inFlow indent c.rest.length ⟨[], c, false⟩

end PlainText

/-! ### Quoted texts

Between single quotes a quote is written twice; between double quotes a backslash escapes. Line
breaks in either are folded. -/

namespace QuotedText

def named? (c : Char) : Option Char :=
  [('0', 0x00), ('a', 0x07), ('b', 0x08), ('t', 0x09), ('\t', 0x09), ('n', 0x0A), ('v', 0x0B),
    ('f', 0x0C), ('r', 0x0D), ('e', 0x1B), (' ', 0x20), ('"', 0x22), ('\\', 0x5C), ('/', 0x2F),
    ('N', 0x85), ('_', 0xA0), ('L', 0x2028), ('P', 0x2029)].findSome? fun (name, code) =>
      if name = c then some (Char.ofNat code) else none

/-- The count of digits that a letter after a backslash announces. -/
def codeLength? (c : Char) : Option Nat :=
  if c = 'x' then some 2 else if c = 'u' then some 4 else if c = 'U' then some 8 else none

/-- The character of a number. Half a surrogate pair is no character and is replaced. -/
def ofCode (n : Nat) : Except Fault Char :=
  if 0x7FFFFFFF < n then .error (.scalar .hugeCharacter)
  else if 0x10FFFF < n then .error (.scalar .notCharacter)
  else if 0xD800 ≤ n ∧ n < 0xE000 then .ok '\uFFFD'
  else .ok (Char.ofNat n)

/-- The line breaks here, spaces and tabs around them aside, and the place after them. A document
must not end between them. -/
def breaks : Nat → Cursor → Except Fault (List Char × Cursor)
  | 0, c => .ok ([], c)
  | steps + 1, c =>
    if c.atDocumentMark then .error .malformed
    else
      let c := c.dropWhile fun char => char == ' ' || char == '\t'
      match c.lineBreak? with
      | none => .ok ([], c)
      | some (char, after) => (breaks steps after).map fun (more, place) => (char :: more, place)

/-- What an escape after a backslash stands for, and the place after it. -/
def escape (c : Cursor) : Except Fault (List Char × Cursor) :=
  match named? c.peek with
  | some char => .ok ([char], c.next)
  | none =>
    match codeLength? c.peek with
    | some size =>
      let digits := c.next.rest.take size
      match digits.mapM (Text.digitIn? 16) with
      | some values =>
        if values.length < size then .error .malformed
        else (ofCode (Text.ofDigits 16 values)).map fun char => ([char], c.next.skip size)
      | none => .error .malformed
    | none =>
      match c.lineBreak? with
      | some (_, after) => breaks (after.rest.length + 1) after
      | none => .error .malformed

/-- Spaces, tabs and line breaks here: what they stand for, and the place after them. -/
def spaces (c : Cursor) : Except Fault (List Char × Cursor) :=
  let (blanks, c) := c.takeWhile fun char => char == ' ' || char == '\t'
  if c.rest.isEmpty then .error .malformed
  else
    match c.lineBreak? with
    | none => .ok (blanks, c)
    | some (first, after) =>
      (breaks (after.rest.length + 1) after).map fun (more, place) =>
        ((if first != '\n' then [first] else if more.isEmpty then [' '] else []) ++ more, place)

/-- One piece of the text between quotes of either kind: what it stands for and the place after
it, or nothing at the closing quote. -/
def piece (double : Bool) (c : Cursor) : Except Fault (Option (List Char × Cursor)) :=
  let char := c.peek
  if !double && char == '\'' then
    .ok (if c.peekAt 1 = '\'' then some (['\''], c.skip 2) else none)
  else if double && char == '"' then .ok none
  else if double && char == '\\' then (escape c.next).map some
  else if isGapOrEnd char then (spaces c).map some
  else .ok (some ([char], c.next))

/-- The text up to the closing quote, and the place after that quote. -/
def scanFrom (double : Bool) : Nat → Cursor → Except Fault (List Char × Cursor)
  | 0, _ => .error .malformed
  | steps + 1, c => do
    match ← piece double c with
    | none => .ok ([], c.next)
    | some (text, after) =>
      let (more, place) ← scanFrom double steps after
      .ok (text ++ more, place)

/-- The text of the quoted scalar that opens at a place, and the place after it. -/
def scan (double : Bool) (c : Cursor) : Except Fault (List Char × Cursor) :=
  scanFrom double (c.rest.length + 1) c.next

end QuotedText

/-! ### Block texts

Indented text under a bar, which keeps its line breaks, or under an angle bracket, which folds
them. A header tells what happens to the breaks at the end and, if need be, how far the text is
indented. -/

namespace BlockText

/-- What happens to the line breaks at the end of the text. -/
inductive Chomping where
  | clip
  | strip
  | keep
  deriving DecidableEq

def chomping? (c : Char) : Option Chomping :=
  if c = '+' then some .keep else if c = '-' then some .strip else none

/-- The indentation that a digit asks for; zero is refused. -/
def increment? (c : Cursor) : Except Fault (Option Nat × Cursor) :=
  match Text.digitIn? 10 c.peek with
  | none => .ok (none, c)
  | some 0 => .error .malformed
  | some n => .ok (some n, c.next)

/-- The header's chomping and indentation, in either order, and the place after them. -/
def header (c : Cursor) : Except Fault (Chomping × Option Nat × Cursor) := do
  match chomping? c.peek with
  | some chomping =>
    let (increment, after) ← increment? c.next
    finish chomping increment after
  | none =>
    let (increment, after) ← increment? c
    match increment, chomping? after.peek with
    | some _, some chomping => finish chomping increment after.next
    | _, _ => finish .clip increment after
where
  /-- A header must end at a space or at the end of its line. -/
  finish (chomping : Chomping) (increment : Option Nat) (after : Cursor) :
      Except Fault (Chomping × Option Nat × Cursor) :=
    if isSpaceOrEnd after.peek then .ok (chomping, increment, after) else .error .malformed

/-- The place after the rest of a header's line, which may hold a comment only. -/
def endLine (c : Cursor) : Except Fault Cursor :=
  let c := c.dropComment
  if isBreakOrEnd c.peek then .ok c.dropBreak else .error .malformed

/-- The line breaks before the first line with text, the greatest indentation met, and the place
after them. -/
def indentation : Nat → Cursor → Nat → List Char × Nat × Cursor
  | 0, c, greatest => ([], greatest, c)
  | steps + 1, c, greatest =>
    if c.peek = ' ' then indentation steps c.next (max greatest c.next.column)
    else
      match c.lineBreak? with
      | none => ([], greatest, c)
      | some (char, after) =>
        let (more, found, place) := indentation steps after greatest
        (char :: more, found, place)

/-- The place after at most the indentation's spaces. -/
def dropIndent (indent : Nat) (c : Cursor) : Cursor :=
  c.skip ((c.rest.takeWhile (· == ' ')).length.min (indent - c.column))

/-- The line breaks here, the indentation of each line aside, and the place after them. -/
def breaks (indent : Nat) : Nat → Cursor → List Char × Cursor
  | 0, c => ([], c)
  | steps + 1, c =>
    let c := dropIndent indent c
    match c.lineBreak? with
    | none => ([], c)
    | some (char, after) =>
      let (more, place) := breaks indent steps after
      (char :: more, place)

/-- A line of text goes on at this place. -/
def atText (indent : Nat) (c : Cursor) : Bool :=
  c.column == indent && !c.rest.isEmpty

def isIndentChar (c : Char) : Bool :=
  c == ' ' || c == '\t'

/-- The lines of the text, each after the breaks before it. A single break between two lines that
do not begin with a space or a tab folds into a space, if folding is asked for. -/
def body (folded : Bool) (indent : Nat) (chomping : Chomping) :
    Nat → List Char → Cursor → List Char × Cursor
  | 0, _, c => ([], c)
  | steps + 1, before, c =>
    if atText indent c then
      let flush := !isIndentChar c.peek
      let (line, c) := c.takeWhile (!isBreakOrEnd ·)
      let (lineBreak, c) :=
        match c.lineBreak? with
        | some (char, after) => ([char], after)
        | none => ([], c)
      let (more, c) := breaks indent (c.rest.length + 1) c
      if atText indent c then
        let joint :=
          if folded && lineBreak == ['\n'] && flush && !isIndentChar c.peek then
            if more.isEmpty then [' '] else []
          else lineBreak
        let (rest, place) := body folded indent chomping steps more c
        (before ++ line ++ joint ++ rest, place)
      else
        let ending :=
          match chomping with
          | .strip => []
          | .clip => lineBreak
          | .keep => lineBreak ++ more
        (before ++ line ++ ending, c)
    else
      (match chomping with
        | .keep => before
        | _ => [], c)

/-- The text of the block scalar whose indicator stands at a place, and the place after it. Its
lines are indented further than `parent`. -/
def scan (folded : Bool) (parent : Int) (c : Cursor) : Except Fault (List Char × Cursor) := do
  let (chomping, increment, after) ← header c.next
  let c ← endLine after
  let least := (parent + 1).toNat.max 1
  let steps := c.rest.length + 1
  match increment with
  | some n =>
    let indent := least + n - 1
    let (before, start) := breaks indent steps c
    .ok (body folded indent chomping steps before start)
  | none =>
    let (before, greatest, start) := indentation steps c 0
    .ok (body folded (least.max greatest) chomping steps before start)

end BlockText

end SdkCatalog.Yaml
