/-! Characters and texts: blanks, digits, words and lines. -/

namespace SdkCatalog.Text

/-! ### Blanks

Blank characters and trimming. A blank is a character that the source scanners skip between
tokens and that trimming removes from the ends of a text. -/

/-- The blank characters: the ASCII controls from tab to carriage return, the four information
separators, the space, and the spaces and separators of Unicode. The byte-order mark and the zero
width space are not blank. -/
def isBlank (c : Char) : Bool :=
  let n := c.toNat
  (9 ≤ n && n ≤ 13) || (28 ≤ n && n ≤ 32) || n == 0x85 || n == 0xA0 || n == 0x1680 ||
    (0x2000 ≤ n && n ≤ 0x200A) || n == 0x2028 || n == 0x2029 || n == 0x202F || n == 0x205F ||
    n == 0x3000

def trimStart (cs : List Char) : List Char :=
  cs.dropWhile isBlank

def trimEnd (cs : List Char) : List Char :=
  (cs.reverse.dropWhile isBlank).reverse

def trim (cs : List Char) : List Char :=
  trimEnd (trimStart cs)

/-! ### Digits

Decimal digits of every script. A decimal numeral may mix them, and each stands for its
value. -/

/-- The code points of the digit zero in each script that has decimal digits. The digits one to
nine follow each of them in order. -/
def digitZeros : List Nat :=
  [0x30, 0x660, 0x6F0, 0x7C0, 0x966, 0x9E6, 0xA66, 0xAE6, 0xB66, 0xBE6, 0xC66, 0xCE6, 0xD66, 0xDE6,
    0xE50, 0xED0, 0xF20, 0x1040, 0x1090, 0x17E0, 0x1810, 0x1946, 0x19D0, 0x1A80, 0x1A90, 0x1B50,
    0x1BB0, 0x1C40, 0x1C50, 0xA620, 0xA8D0, 0xA900, 0xA9D0, 0xA9F0, 0xAA50, 0xABF0, 0xFF10,
    0x104A0, 0x10D30, 0x11066, 0x110F0, 0x11136, 0x111D0, 0x112F0, 0x11450, 0x114D0, 0x11650,
    0x116C0, 0x11730, 0x118E0, 0x11950, 0x11C50, 0x11D50, 0x11DA0, 0x16A60, 0x16AC0, 0x16B50,
    0x1D7CE, 0x1D7D8, 0x1D7E2, 0x1D7EC, 0x1D7F6, 0x1E140, 0x1E2F0, 0x1E950, 0x1FBF0]

/-- The value of a decimal digit of any script. -/
def digit? (c : Char) : Option Nat :=
  (digitZeros.find? fun first => first ≤ c.toNat && c.toNat < first + 10).map (c.toNat - ·)

def isDigit (c : Char) : Bool :=
  (digit? c).isSome

/-- The value of an ASCII digit or letter read in a base of at most thirty-six. -/
def digitIn? (base : Nat) (c : Char) : Option Nat :=
  let value? :=
    if '0' ≤ c ∧ c ≤ '9' then some (c.toNat - '0'.toNat)
    else if 'a' ≤ c ∧ c ≤ 'z' then some (c.toNat - 'a'.toNat + 10)
    else if 'A' ≤ c ∧ c ≤ 'Z' then some (c.toNat - 'A'.toNat + 10)
    else none
  value?.filter (· < base)

/-- The number that a list of digit values spells in a base, the most significant first. -/
def ofDigits (base : Nat) (values : List Nat) : Nat :=
  values.foldl (fun total value => total * base + value) 0

/-- A number is appended to by one more digit. -/
theorem ofDigits_concat (base : Nat) (values : List Nat) (value : Nat) :
    ofDigits base (values ++ [value]) = ofDigits base values * base + value := by
  simp [ofDigits]

/-! ### Words

Words and fixed texts at the head of a list of characters: the steps that the source scanners
are made of. Each step answers what it read together with the rest. -/

def isWordChar (c : Char) : Bool :=
  c.isAlphanum || c == '_'

/-- A character that may begin an identifier. -/
def isIdentifierStart (c : Char) : Bool :=
  c.isAlpha || c == '_' || c == '$'

/-- A character that may stand inside an identifier. -/
def isIdentifierChar (c : Char) : Bool :=
  c.isAlphanum || c == '_' || c == '$'

/-- The text after a fixed text at its head. -/
def after? : List Char → List Char → Option (List Char)
  | [], cs => some cs
  | _ :: _, [] => none
  | e :: es, c :: cs => if e = c then after? es cs else none

def afterString? (expected : String) (cs : List Char) : Option (List Char) :=
  after? expected.toList cs

/-- The text after one or more blanks. -/
def afterBlanks? : List Char → Option (List Char)
  | [] => none
  | c :: cs => if isBlank c then some (trimStart cs) else none

/-- The longest run of characters of a class, which must not be empty, and the rest. -/
def run? (p : Char → Bool) (cs : List Char) : Option (List Char × List Char) :=
  match cs.takeWhile p with
  | [] => none
  | c :: word => some (c :: word, cs.dropWhile p)

/-- The identifier at the head of a text and the rest. -/
def identifier? : List Char → Option (List Char × List Char)
  | [] => none
  | c :: cs =>
    if isIdentifierStart c then
      some (c :: cs.takeWhile isIdentifierChar, cs.dropWhile isIdentifierChar)
    else none

/-- The pieces of a text between the separators, one more than there are separators. -/
def pieces (separator : Char) : List Char → List (List Char)
  | [] => [[]]
  | c :: cs =>
    if c = separator then [] :: pieces separator cs
    else
      match pieces separator cs with
      | [] => [[c]]
      | piece :: rest => (c :: piece) :: rest

/-- The answers of a step at the leftmost places where it succeeds, each looked for after the text
that the one before has read. The first argument counts the characters already read. -/
def scan {α : Type} (step : List Char → Option (α × List Char)) : Nat → List Char → List α
  | _, [] => []
  | read + 1, _ :: cs => scan step read cs
  | 0, c :: cs =>
    match step (c :: cs) with
    | some (answer, rest) => answer :: scan step (cs.length - rest.length) cs
    | none => scan step 0 cs

/-- The first answer of a step tried at a text and at each shorter end of it. -/
def leftmost? {α : Type} (step : List Char → Option α) : List Char → Option α
  | [] => step []
  | c :: cs => (step (c :: cs)).or (leftmost? step cs)

def endsWith (ending cs : List Char) : Bool :=
  ending.isSuffixOf cs

def startsWith (start cs : List Char) : Bool :=
  start.isPrefixOf cs

/-- A fixed text is found exactly where the text is that fixed text and a rest. -/
theorem after?_eq_some_iff {es cs rest : List Char} :
    after? es cs = some rest ↔ cs = es ++ rest := by
  induction es generalizing cs with
  | nil => simp [after?, eq_comm]
  | cons e es ih =>
    cases cs with
    | nil => simp [after?]
    | cons c cs => by_cases h : e = c <;> simp [after?, h, ih, eq_comm]

/-! ### Lines

Line breaks. A source is cut into lines at line feeds, and a carriage return directly before a
line feed belongs to the break. Files read as text have every break turned into a line feed
first. -/

/-- Puts a character in front of the first line. -/
def prependToFirst (c : Char) : List (List Char) → List (List Char)
  | [] => [[c]]
  | line :: lines => (c :: line) :: lines

/-- The lines of a text, one more than it has line feeds. A carriage return directly before a line
feed is part of the break and of no line. -/
def lines : List Char → List (List Char)
  | [] => [[]]
  | '\r' :: '\n' :: rest => [] :: lines rest
  | '\n' :: rest => [] :: lines rest
  | c :: rest => prependToFirst c (lines rest)

/-- The text with every line break, a carriage return with or without a line feed, written as one
line feed. -/
def unifyBreaks : List Char → List Char
  | [] => []
  | '\r' :: '\n' :: rest => '\n' :: unifyBreaks rest
  | '\r' :: rest => '\n' :: unifyBreaks rest
  | c :: rest => c :: unifyBreaks rest

def splitLines (source : String) : List String :=
  (lines source.toList).map String.ofList

/-- The lines put together again with a line feed between neighbours. -/
def joinLines (parts : List (List Char)) : List Char :=
  ['\n'].intercalate parts

end SdkCatalog.Text
