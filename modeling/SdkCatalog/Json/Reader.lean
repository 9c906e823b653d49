import SdkCatalog.Json.Value
import SdkCatalog.Number.Basic

/-! Reading JSON. A malformed text is reported with what was expected and where: the place is the
first character that cannot belong to the value, except that an unterminated string is reported at
its opening quote. The words `NaN`, `Infinity` and `-Infinity` are numbers. -/

namespace SdkCatalog.Json

/-- What is wrong with a text. -/
inductive Complaint where
  | expectedValue
  | expectedKey
  | expectedColon
  | expectedComma
  | unterminatedString
  | controlCharacter
  | badEscape
  | badUnicodeEscape
  | extraData
  | byteOrderMark
  deriving DecidableEq

def Complaint.message : Complaint → String
  | .expectedValue => "Expecting value"
  | .expectedKey => "Expecting property name enclosed in double quotes"
  | .expectedColon => "Expecting ':' delimiter"
  | .expectedComma => "Expecting ',' delimiter"
  | .unterminatedString => "Unterminated string starting at"
  | .controlCharacter => "Invalid control character at"
  | .badEscape => "Invalid \\escape"
  | .badUnicodeEscape => "Invalid \\uXXXX escape"
  | .extraData => "Extra data"
  | .byteOrderMark => "Unexpected UTF-8 BOM (decode using utf-8-sig)"

inductive ReadError where
  | malformed (complaint : Complaint) (remaining : Nat)
  | tooLong (count : Numeral.TooLong)
  deriving DecidableEq

/-- What a reading step answers: a value and the rest of the text. -/
abbrev Reading (α : Type) := Except ReadError (α × List Char)

/-- The failure with a complaint about the head of a text. -/
def complain {α : Type} (complaint : Complaint) (here : List Char) : Except ReadError α :=
  .error (.malformed complaint here.length)

/-- The characters skipped between tokens. -/
def isSpace (c : Char) : Bool :=
  c == ' ' || c == '\t' || c == '\n' || c == '\r'

def skipSpace (cs : List Char) : List Char :=
  cs.dropWhile isSpace

/-- The character that a letter after a backslash stands for. -/
def escaped? (c : Char) : Option Char :=
  if c = '"' ∨ c = '\\' ∨ c = '/' then some c
  else if c = 'b' then some '\x08'
  else if c = 'f' then some '\x0c'
  else if c = 'n' then some '\n'
  else if c = 'r' then some '\r'
  else if c = 't' then some '\t'
  else none

/-- The number that four digits in base sixteen spell. -/
def hex4? (a b c d : Char) : Option Nat :=
  ([a, b, c, d].mapM (Text.digitIn? 16)).map (Text.ofDigits 16)

/-- A code unit that begins a pair. -/
def isHighSurrogate (n : Nat) : Bool :=
  0xD800 ≤ n && n < 0xDC00

def isLowSurrogate (n : Nat) : Bool :=
  0xDC00 ≤ n && n < 0xE000

/-- The character of a pair of code units. -/
def joinSurrogates (high low : Nat) : Char :=
  Char.ofNat (0x10000 + (high - 0xD800) * 1024 + (low - 0xDC00))

/-- A piece of a string as it is written: a character, or a code unit given by its number. -/
inductive Piece where
  | plain (char : Char)
  | unit (code : Nat)

/-- The text of the pieces. Two units that form a pair are one character; half a pair is no
character and is replaced. -/
def joinPieces : List Piece → List Char
  | [] => []
  | .plain c :: rest => c :: joinPieces rest
  | .unit first :: .unit second :: rest =>
    if isHighSurrogate first && isLowSurrogate second then
      joinSurrogates first second :: joinPieces rest
    else ofUnit first :: joinPieces (.unit second :: rest)
  | .unit code :: rest => ofUnit code :: joinPieces rest
where
  /-- The character of a single code unit. -/
  ofUnit (n : Nat) : Char :=
    if isHighSurrogate n || isLowSurrogate n then '\uFFFD' else Char.ofNat n

/-- Puts a piece in front of a string that is being read. -/
def prepend (piece : Piece) (reading : Reading (List Piece)) : Reading (List Piece) :=
  reading.map fun (pieces, rest) => (piece :: pieces, rest)

/-- The pieces of a string after its opening quote, which is the head of the text `opening`. An
escape by number is complete only when a character follows it. -/
def stringBody (opening : List Char) : List Char → Reading (List Piece)
  | [] => complain .unterminatedString opening
  | '"' :: rest => .ok ([], rest)
  | '\\' :: 'u' :: a :: b :: c :: d :: rest =>
    match hex4? a b c d with
    | some code =>
      if rest.isEmpty then complain .badUnicodeEscape ('u' :: a :: b :: c :: d :: rest)
      else prepend (.unit code) (stringBody opening rest)
    | none => complain .badUnicodeEscape ('u' :: a :: b :: c :: d :: rest)
  | ['\\'] => complain .unterminatedString opening
  | '\\' :: c :: rest =>
    if c = 'u' then complain .badUnicodeEscape (c :: rest)
    else
      match escaped? c with
      | some e => prepend (.plain e) (stringBody opening rest)
      | none => complain .badEscape ('\\' :: c :: rest)
  | c :: rest =>
    if c.toNat < 0x20 then complain .controlCharacter (c :: rest)
    else prepend (.plain c) (stringBody opening rest)

/-- A string whose opening quote stands before the text. -/
def string (afterQuote : List Char) : Reading String :=
  (stringBody ('"' :: afterQuote) afterQuote).map fun (pieces, rest) =>
    (String.ofList (joinPieces pieces), rest)

def digits (cs : List Char) : List Nat × List Char :=
  ((cs.takeWhile Char.isDigit).filterMap (Text.digitIn? 10), cs.dropWhile Char.isDigit)

/-- The digits of a whole part, which does not begin with zero unless it is zero. -/
def wholeDigits (cs : List Char) : List Nat × List Char :=
  match cs with
  | '0' :: rest => ([0], rest)
  | _ => digits cs

/-- The digits after a point, when one or more follow it. -/
def fractionDigits (cs : List Char) : List Nat × List Char :=
  match cs with
  | '.' :: rest =>
    match digits rest with
    | ([], _) => ([], cs)
    | found => found
  | _ => ([], cs)

/-- The exponent at the head of a text, when it is complete. -/
def exponent? : List Char → Option (Int × List Char)
  | [] => none
  | c :: cs =>
    if c = 'e' ∨ c = 'E' then
      let (negative, rest) := Numeral.sign cs
      match digits rest with
      | ([], _) => none
      | (values, rest') => some (Numeral.signed negative (Text.ofDigits 10 values), rest')
    else none

/-- The number of digits found, signed, after its sign: a whole number unless it has a fraction or
an exponent. -/
def number (negative : Bool) (here cs : List Char) : Reading Value :=
  match wholeDigits cs with
  | ([], _) => complain .expectedValue here
  | (whole, rest) =>
    let (decimals, rest') := fractionDigits rest
    match exponent? rest' with
    | some (exponent, rest'') =>
      .ok (.number (.float (.ofDecimal negative (Text.ofDigits 10 (whole ++ decimals))
        (exponent - decimals.length))), rest'')
    | none =>
      if decimals.isEmpty then
        -- Only whole numbers have a limit on digits: a decimal is rounded, however long it is.
        if digitLimit < whole.length then .error (.tooLong ⟨whole.length⟩)
        else .ok (.number (.int (Numeral.signed negative (Text.ofDigits 10 whole))), rest')
      else
        .ok (.number (.float (.ofDecimal negative (Text.ofDigits 10 (whole ++ decimals))
          (-(decimals.length : Int)))), rest')

def words : List (List Char × Value) :=
  [("null".toList, .null), ("true".toList, .bool true), ("false".toList, .bool false),
    ("NaN".toList, .number (.float .nan)),
    ("Infinity".toList, .number (.float (.infinite false))),
    ("-Infinity".toList, .number (.float (.infinite true)))]

/-- The value of the fixed word at the head of a text, and the rest. -/
def word? (cs : List Char) : Option (Value × List Char) :=
  words.findSome? fun (text, value) =>
    if text.isPrefixOf cs then some (value, cs.drop text.length) else none

/-- A value that is no array, object or string. -/
def atom (cs : List Char) : Reading Value :=
  match word? cs with
  | some found => .ok found
  | none =>
    match cs with
    | '-' :: rest => number true cs rest
    | _ => number false cs cs

mutual

/-- The value at the head of a text. Every step reads at least one character, so as many steps as
there are characters suffice. -/
def value : Nat → List Char → Reading Value
  | 0, cs => complain .expectedValue cs
  | steps + 1, cs =>
    match cs with
    | '"' :: rest => (string rest).map fun (text, rest') => (.str text, rest')
    | '[' :: rest =>
      match skipSpace rest with
      | ']' :: rest' => .ok (.arr [], rest')
      | rest' => (items steps rest').map fun (found, rest'') => (.arr found, rest'')
    | '{' :: rest =>
      match skipSpace rest with
      | '}' :: rest' => .ok (.obj [], rest')
      | rest' =>
        (members steps rest').map fun (found, rest'') => (.obj (Members.ofPairs found), rest'')
    | _ => atom cs

/-- The items of an array from the first of them on. -/
def items : Nat → List Char → Reading (List Value)
  | 0, cs => complain .expectedValue cs
  | steps + 1, cs =>
    (value steps cs).bind fun (first, rest) =>
      match skipSpace rest with
      | ']' :: rest' => .ok ([first], rest')
      | ',' :: next =>
        (items steps (skipSpace next)).map fun (more, rest') => (first :: more, rest')
      | other => complain .expectedComma other

/-- The members of an object from the first of them on, repeated keys included. -/
def members : Nat → List Char → Reading (List (String × Value))
  | 0, cs => complain .expectedKey cs
  | steps + 1, cs =>
    match cs with
    | '"' :: afterQuote =>
      (string afterQuote).bind fun (key, afterKey) =>
        match skipSpace afterKey with
        | ':' :: afterColon =>
          (value steps (skipSpace afterColon)).bind fun (first, rest) =>
            match skipSpace rest with
            | '}' :: rest' => .ok ([(key, first)], rest')
            | ',' :: next =>
              (members steps (skipSpace next)).map fun (more, rest') =>
                ((key, first) :: more, rest')
            | other => complain .expectedComma other
        | other => complain .expectedColon other
    | _ => complain .expectedKey cs

end

def read (cs : List Char) : Except ReadError Value :=
  match cs with
  | '\uFEFF' :: _ => complain .byteOrderMark cs
  | _ =>
    (value (cs.length + 1) (skipSpace cs)).bind fun (found, rest) =>
      match skipSpace rest with
      | [] => .ok found
      | other => complain .extraData other

/-- The wording of a complaint about a text, with the line, the column and the count of characters
before the place. -/
def locate (text : List Char) (complaint : Complaint) (remaining : Nat) : String :=
  let position := text.length - remaining
  let before := text.take position
  let line := before.count '\n' + 1
  let column := (before.reverse.takeWhile (· != '\n')).length + 1
  s!"{complaint.message}: line {line} column {column} (char {position})"

end SdkCatalog.Json
