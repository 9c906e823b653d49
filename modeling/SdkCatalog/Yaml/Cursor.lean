/-! A place in a YAML text, with its line and column. The end of the text is shown as the null
character, which no well-formed text holds. -/

namespace SdkCatalog.Yaml

/-- The character shown at the end of the text. -/
def endMark : Char := Char.ofNat 0

def byteOrderMark : Char := '\uFEFF'

def isBreak (c : Char) : Bool :=
  c == '\n' || c == '\u0085' || c == '\u2028' || c == '\u2029'

def isBreakOrEnd (c : Char) : Bool :=
  isBreak c || c == endMark

def isSpaceOrEnd (c : Char) : Bool :=
  c == ' ' || isBreakOrEnd c

def isGapOrEnd (c : Char) : Bool :=
  c == '\t' || isSpaceOrEnd c

/-- A character that a YAML text may hold. -/
def isAllowed (c : Char) : Bool :=
  let n := c.toNat
  n == 0x09 || n == 0x0A || n == 0x0D || (0x20 ≤ n && n ≤ 0x7E) || n == 0x85 ||
    (0xA0 ≤ n && n ≤ 0xD7FF) || (0xE000 ≤ n && n ≤ 0xFFFD) || 0x10000 ≤ n

/-- A place in a text: what follows it, the characters and line breaks before it, and the
characters before it on its line. -/
structure Cursor where
  rest : List Char
  index : Nat := 0
  line : Nat := 0
  column : Nat := 0

namespace Cursor

def peekAt (c : Cursor) (ahead : Nat) : Char :=
  c.rest[ahead]?.getD endMark

def peek (c : Cursor) : Char :=
  c.peekAt 0

def next (c : Cursor) : Cursor :=
  match c.rest with
  | [] => c
  | char :: rest =>
    if isBreak char then ⟨rest, c.index + 1, c.line + 1, 0⟩
    else
      ⟨rest, c.index + 1, c.line, if char = byteOrderMark then c.column else c.column + 1⟩

def skip (c : Cursor) : Nat → Cursor
  | 0 => c
  | n + 1 => c.next.skip n

/-- The characters up to the first place where a test of what follows fails. -/
def runOf (p : List Char → Bool) : List Char → List Char
  | [] => []
  | c :: rest => if p (c :: rest) then c :: runOf p rest else []

/-- The run of characters up to the first place where a test of what follows fails, and the place
after it. -/
def takeRun (c : Cursor) (p : List Char → Bool) : List Char × Cursor :=
  let run := runOf p c.rest
  (run, c.skip run.length)

/-- The run of characters of a class and the place after it. -/
def takeWhile (c : Cursor) (p : Char → Bool) : List Char × Cursor :=
  let run := c.rest.takeWhile p
  (run, c.skip run.length)

def dropWhile (c : Cursor) (p : Char → Bool) : Cursor :=
  (c.takeWhile p).2

/-- The line break here and the place after it. Breaks other than the two separators of Unicode
count as line feeds. -/
def lineBreak? (c : Cursor) : Option (Char × Cursor) :=
  let char := c.peek
  if char = '\u2028' ∨ char = '\u2029' then some (char, c.next)
  else if isBreak char then some ('\n', c.next)
  else none

def dropBreak (c : Cursor) : Cursor :=
  if isBreak c.peek then c.next else c

def atDocumentMark (c : Cursor) : Bool :=
  (c.rest.take 3 == ['-', '-', '-'] || c.rest.take 3 == ['.', '.', '.']) && isGapOrEnd (c.peekAt 3)

/-- The place after spaces, and after a comment if one follows them. -/
def dropComment (c : Cursor) : Cursor :=
  let c := c.dropWhile (· == ' ')
  if c.peek = '#' then c.dropWhile (!isBreakOrEnd ·) else c

end Cursor

end SdkCatalog.Yaml
