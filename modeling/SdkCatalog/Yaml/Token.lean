import SdkCatalog.Yaml.ScalarText
import SdkCatalog.Yaml.TagText

/-! The tokens of a YAML text. Indentation opens and closes block collections, and a key that is
only known by the colon after it gets its token put in front of it afterwards: such a key stands
on one line and is at most 1024 characters long. -/

namespace SdkCatalog.Yaml

inductive Token where
  | directive (found : TagText.Directive)
  | documentStart
  | documentEnd
  | sequenceStart
  | mappingStart
  | blockEnd
  | flowSequenceStart
  | flowSequenceEnd
  | flowMappingStart
  | flowMappingEnd
  | entry
  | flowEntry
  | key
  | value
  | alias (name : String)
  | anchor (name : String)
  | tag (found : TagText.Tag)
  /-- A scalar, and whether it is plain. -/
  | scalar (text : String) (plain : Bool)

namespace Token

/-- A place where a key may have begun. -/
structure Candidate where
  /-- The count of tokens before it. -/
  tokens : Nat
  /-- Only a key may stand here. -/
  required : Bool
  place : Cursor

/-- How far a text has been cut into tokens. -/
structure Lexer where
  place : Cursor
  tokens : Array Token := #[]
  flowLevel : Nat := 0
  /-- The column of the innermost block collection. -/
  indent : Int := -1
  /-- The columns of the block collections around it. -/
  outer : List Int := []
  /-- A key may begin here. -/
  keyAllowed : Bool := true
  /-- The last place where a key may have begun, for each count of open brackets. -/
  candidates : List (Nat × Candidate) := []

namespace Lexer

def inFlow (lexer : Lexer) : Bool :=
  lexer.flowLevel != 0

def push (lexer : Lexer) (token : Token) : Lexer :=
  { lexer with tokens := lexer.tokens.push token }

/-- The lexer moved past spaces, comments and line breaks. After a line break outside brackets a
key may begin. -/
def toNextToken (lexer : Lexer) : Lexer :=
  let start := lexer.place
  let start := if start.index = 0 ∧ start.peek = byteOrderMark then start.next else start
  let (place, broken) := go start.rest.length start false
  { lexer with place, keyAllowed := lexer.keyAllowed || (broken && !lexer.inFlow) }
where
  /-- The next token's place after at most so many lines, and whether lines were passed. -/
  go : Nat → Cursor → Bool → Cursor × Bool
    | 0, c, broken => (c.dropComment, broken)
    | steps + 1, c, broken =>
      let c := c.dropComment
      if isBreak c.peek then go steps c.next true else (c, broken)

/-- The lexer without the candidates that are too far back or on an earlier line; one of them
must not be required. -/
def dropStale (lexer : Lexer) : Except Fault Lexer :=
  let stale := fun (candidate : Candidate) =>
    candidate.place.line != lexer.place.line ||
      decide (1024 < lexer.place.index - candidate.place.index)
  if lexer.candidates.any fun (_, candidate) => stale candidate && candidate.required then
    .error .malformed
  else
    .ok { lexer with
      candidates := lexer.candidates.filter fun (_, candidate) => !stale candidate }

/-- The lexer without the candidate of the present level, which must not be required. -/
def dropCandidate (lexer : Lexer) : Except Fault Lexer :=
  if lexer.candidates.any fun (level, candidate) =>
      level == lexer.flowLevel && candidate.required then
    .error .malformed
  else
    .ok { lexer with candidates := lexer.candidates.filter (·.1 != lexer.flowLevel) }

/-- The lexer with this place noted as one where a key may begin, if one may. -/
def noteCandidate (lexer : Lexer) : Except Fault Lexer :=
  if lexer.keyAllowed then do
    let required := !lexer.inFlow && lexer.indent == lexer.place.column
    let cleared ← lexer.dropCandidate
    .ok { cleared with
      candidates :=
        (lexer.flowLevel, ⟨lexer.tokens.size, required, lexer.place⟩) :: cleared.candidates }
  else .ok lexer

/-- The lexer with the block collections closed that begin right of a column. -/
def closeBlocks (column : Int) (lexer : Lexer) : Lexer :=
  if lexer.inFlow then lexer else go lexer.outer lexer
where
  /-- The lexer after closing some of the collections inside the given columns. -/
  go : List Int → Lexer → Lexer
    | [], lexer => lexer
    | outer :: rest, lexer =>
      if column < lexer.indent then
        go rest { lexer.push .blockEnd with indent := outer, outer := rest }
      else lexer

/-- The lexer inside a block collection that begins at a column, and whether that is a new one. -/
def openBlock (column : Int) (lexer : Lexer) : Lexer × Bool :=
  if lexer.indent < column then
    ({ lexer with indent := column, outer := lexer.indent :: lexer.outer }, true)
  else (lexer, false)

/-- The lexer moved on by a number of characters, with one more token. -/
def take (lexer : Lexer) (size : Nat) (token : Token) : Lexer :=
  { lexer with place := lexer.place.skip size }.push token

/-- A directive or a document mark ends every block and every candidate. -/
def betweenDocuments (lexer : Lexer) : Except Fault Lexer := do
  let cleared ← (lexer.closeBlocks (-1)).dropCandidate
  .ok { cleared with keyAllowed := false }

def openFlow (token : Token) (lexer : Lexer) : Except Fault Lexer := do
  let noted ← lexer.noteCandidate
  .ok ({ noted with flowLevel := noted.flowLevel + 1, keyAllowed := true }.take 1 token)

def closeFlow (token : Token) (lexer : Lexer) : Except Fault Lexer := do
  if lexer.flowLevel = 0 then .error .malformed
  else
    let cleared ← lexer.dropCandidate
    .ok ({ cleared with flowLevel := cleared.flowLevel - 1, keyAllowed := false }.take 1 token)

def flowEntry (lexer : Lexer) : Except Fault Lexer := do
  let cleared ← { lexer with keyAllowed := true }.dropCandidate
  .ok (cleared.take 1 .flowEntry)

/-- The lexer inside a block collection that begins here, with the token that opens a new one. -/
def openBlockHere (token : Token) (lexer : Lexer) : Lexer :=
  if lexer.inFlow then lexer
  else
    let (opened, isNew) := lexer.openBlock lexer.place.column
    if isNew then opened.push token else opened

def blockEntry (lexer : Lexer) : Except Fault Lexer := do
  if !lexer.inFlow && !lexer.keyAllowed then .error .malformed
  else
    let opened := lexer.openBlockHere .sequenceStart
    let cleared ← { opened with keyAllowed := true }.dropCandidate
    .ok (cleared.take 1 .entry)

def explicitKey (lexer : Lexer) : Except Fault Lexer := do
  if !lexer.inFlow && !lexer.keyAllowed then .error .malformed
  else
    let opened := lexer.openBlockHere .mappingStart
    let cleared ← { opened with keyAllowed := !lexer.inFlow }.dropCandidate
    .ok (cleared.take 1 .key)

/-- The lexer after the colon of a value. The candidate of this level, if there is one, turns out
to be the key. -/
def value (lexer : Lexer) : Except Fault Lexer := do
  match lexer.candidates.find? (·.1 == lexer.flowLevel) with
  | some (_, candidate) =>
    let settled := { lexer with
      candidates := lexer.candidates.filter (·.1 != lexer.flowLevel)
      tokens := lexer.tokens.insertIdxIfInBounds candidate.tokens .key
      keyAllowed := false }
    let (opened, isNew) :=
      if lexer.inFlow then (settled, false) else settled.openBlock candidate.place.column
    let started :=
      if isNew then
        { opened with tokens := opened.tokens.insertIdxIfInBounds candidate.tokens .mappingStart }
      else opened
    .ok (started.take 1 .value)
  | none =>
    if !lexer.inFlow && !lexer.keyAllowed then .error .malformed
    else
      let opened := lexer.openBlockHere .mappingStart
      let cleared ← { opened with keyAllowed := !lexer.inFlow }.dropCandidate
      .ok (cleared.take 1 .value)

/-- The lexer after a token that may be a key or begin one. -/
def mayBeKey (lexer : Lexer) (scan : Cursor → Except Fault (Token × Cursor)) :
    Except Fault Lexer := do
  let noted ← lexer.noteCandidate
  let (token, place) ← scan lexer.place
  .ok ({ noted with place, keyAllowed := false }.push token)

def blockScalar (folded : Bool) (lexer : Lexer) : Except Fault Lexer := do
  let cleared ← { lexer with keyAllowed := true }.dropCandidate
  let (text, place) ← BlockText.scan folded lexer.indent lexer.place
  .ok ({ cleared with place }.push (.scalar (String.ofList text) false))

def quotedScalar (double : Bool) (lexer : Lexer) : Except Fault Lexer :=
  lexer.mayBeKey fun c =>
    (QuotedText.scan double c).map fun (text, place) =>
      (.scalar (String.ofList text) false, place)

def plainScalar (lexer : Lexer) : Except Fault Lexer := do
  let noted ← lexer.noteCandidate
  let (text, place, broken) := PlainText.scan lexer.inFlow (lexer.indent + 1) lexer.place
  .ok ({ noted with place, keyAllowed := broken }.push (.scalar (String.ofList text) true))

/-- The characters that begin no plain scalar, unless they are hyphens, question marks or colons
that text follows. -/
def isIndicator (c : Char) : Bool :=
  "-?:,[]\x7b\x7d#&*!|>'\"%@`".toList.contains c

def atPlain (lexer : Lexer) : Bool :=
  let c := lexer.place.peek
  let textFollows := !isGapOrEnd (lexer.place.peekAt 1)
  !(isGapOrEnd c || isIndicator c) ||
    (textFollows && (c == '-' || (!lexer.inFlow && (c == '?' || c == ':'))))

/-- A mark of this character here stands alone: a gap follows it, or brackets are open. -/
def isMark (lexer : Lexer) (c : Char) : Bool :=
  lexer.place.peek == c && (lexer.inFlow || isGapOrEnd (lexer.place.peekAt 1))

/-- The lexer after the token at its place, which is not the end. -/
def token (lexer : Lexer) : Except Fault Lexer :=
  let here := lexer.place
  let c := here.peek
  if c == '%' && here.column == 0 then do
    let cleared ← lexer.betweenDocuments
    let (found, place) ← TagText.directive here
    .ok ({ cleared with place }.push (.directive found))
  else if here.column == 0 && here.atDocumentMark then do
    let cleared ← lexer.betweenDocuments
    .ok (cleared.take 3 (if c = '-' then .documentStart else .documentEnd))
  else if c == '[' then lexer.openFlow .flowSequenceStart
  else if c == '{' then lexer.openFlow .flowMappingStart
  else if c == ']' then lexer.closeFlow .flowSequenceEnd
  else if c == '}' then lexer.closeFlow .flowMappingEnd
  else if c == ',' then lexer.flowEntry
  else if c == '-' && isGapOrEnd (here.peekAt 1) then lexer.blockEntry
  else if lexer.isMark '?' then lexer.explicitKey
  else if lexer.isMark ':' then lexer.value
  else if c == '*' then
    lexer.mayBeKey fun c => (TagText.anchor c).map fun (name, place) => (.alias name, place)
  else if c == '&' then
    lexer.mayBeKey fun c => (TagText.anchor c).map fun (name, place) => (.anchor name, place)
  else if c == '!' then
    lexer.mayBeKey fun c => (TagText.tag c).map fun (found, place) => (.tag found, place)
  else if c == '|' && !lexer.inFlow then lexer.blockScalar false
  else if c == '>' && !lexer.inFlow then lexer.blockScalar true
  else if c == '\'' then lexer.quotedScalar false
  else if c == '"' then lexer.quotedScalar true
  else if lexer.atPlain then lexer.plainScalar
  else .error .malformed

/-- The tokens of the rest of a text, of which every step reads at least one character. -/
def run : Nat → Lexer → Except Fault (List Token)
  | 0, _ => .error .malformed
  | steps + 1, lexer => do
    let ready ← lexer.toNextToken.dropStale
    let closed := ready.closeBlocks ready.place.column
    if closed.place.rest.isEmpty then
      let ended ← (closed.closeBlocks (-1)).dropCandidate
      .ok ended.tokens.toList
    else
      run steps (← closed.token)

end Lexer

def ofText (cs : List Char) : Except Fault (List Token) :=
  if cs.all isAllowed then Lexer.run (cs.length + 1) { place := { rest := cs } }
  else .error .malformed

end Token

end SdkCatalog.Yaml
