import SdkCatalog.Number.Double
import SdkCatalog.Text.Basic
import SdkCatalog.Yaml.Basic
import SdkCatalog.Yaml.Implicit

/-! The value of a scalar, as its tag asks for it. -/

namespace SdkCatalog.Yaml.Scalar

open Text

def dropBars (cs : List Char) : List Char :=
  cs.filter (· != '_')

/-- The text after the two characters that may announce a base. -/
def dropBaseMark (base : Nat) (cs : List Char) : List Char :=
  match Numeral.base? cs with
  | some (marked, rest) => if marked = base then rest else cs
  | none => cs

/-- The value of a digit in a base: an ASCII letter, or a decimal digit of any script. -/
def digitOf? (base : Nat) (c : Char) : Option Nat :=
  ((digit? c).or (digitIn? 36 c)).filter (· < base)

/-- Bases that are powers of two have no limit on digits. -/
def isLimited (base : Nat) : Bool :=
  base == 10

/-- A blank that may stand around a number: any but the four information separators. -/
def isOuterBlank (c : Char) : Bool :=
  isBlank c && !(28 ≤ c.toNat && c.toNat ≤ 31)

def trimOuter (cs : List Char) : List Char :=
  ((cs.dropWhile isOuterBlank).reverse.dropWhile isOuterBlank).reverse

/-- The whole number that a text spells in a base, blanks around it aside. The length is looked at
before the digits. -/
def whole (base : Nat) (cs : List Char) : Except ScalarFault Int :=
  let (negative, unsigned) := Numeral.sign (trimOuter cs)
  let places := dropBaseMark base unsigned
  let size := (places.takeWhile fun c => (digitOf? base c).isSome).length
  if isLimited base && digitLimit < size then .error (.tooLong ⟨size⟩)
  else
    match places.mapM (digitOf? base) with
    | some (value :: values) => .ok (Numeral.signed negative (ofDigits base (value :: values)))
    | _ => .error (.notWhole base (String.ofList cs))

def splitSign (cs : List Char) : Except ScalarFault (Bool × List Char) :=
  match cs with
  | [] => .error .noDigits
  | _ => .ok (Numeral.sign cs)

/-- The number whose places in base sixty are given, the greatest first. -/
def sixty (places : List Int) : Int :=
  places.foldl (fun total place => total * 60 + place) 0

def int (text : String) : Except ScalarFault Int := do
  let (negative, cs) ← splitSign (dropBars text.toList)
  let magnitude ←
    match cs with
    | ['0'] => .ok 0
    | '0' :: 'b' :: rest => whole 2 rest
    | '0' :: 'x' :: rest => whole 16 rest
    | '0' :: _ => whole 8 cs
    | [] => .error .noDigits
    | _ => if cs.contains ':' then ((pieces ':' cs).mapM (whole 10)).map sixty else whole 10 cs
  .ok (if negative then -magnitude else magnitude)

/-- The floating point number that a text spells, blanks around it aside: a numeral or a word. -/
def floatText (cs : List Char) : Except ScalarFault FloatingPoint :=
  let trimmed := trimOuter cs
  let (negative, unsigned) := Numeral.sign trimmed
  let word := String.ofList unsigned
  if word = "inf" ∨ word = "infinity" then .ok (.infinite negative)
  else if word = "nan" then .ok .nan
  else
    match Numeral.decimal? trimmed with
    | some (.decimal sign whole decimals exponent) =>
      .ok (.ofDecimal sign (ofDigits 10 (whole ++ decimals)) (exponent - decimals.length))
    | _ => .error (.notFloat (String.ofList cs))

/-- The sum of the places of a number in base sixty, the least first, each rounded. -/
def addSixty : Nat → FloatingPoint → List FloatingPoint → Except ScalarFault FloatingPoint
  | _, total, [] => .ok total
  | base, total, place :: rest =>
    match Double.ofRatio? false base 1 with
    | some factor => addSixty (base * 60) (total.add (place.scale factor)) rest
    | none => .error .beyondFloat

def float (text : String) : Except ScalarFault FloatingPoint := do
  let (negative, cs) ← splitSign ((dropBars text.toList).map Char.toLower)
  let magnitude ←
    if cs = ".inf".toList then .ok (.infinite false)
    else if cs = ".nan".toList then .ok .nan
    else if cs.contains ':' then do
      let places ← (pieces ':' cs).mapM floatText
      addSixty 1 (.finite (Double.ofSign false)) places.reverse
    else floatText cs
  .ok (if negative then magnitude.neg else magnitude)

def bool (text : String) : Except ScalarFault Bool :=
  let lower := String.ofList (text.toList.map Char.toLower)
  if ["yes", "true", "on"].contains lower then .ok true
  else if ["no", "false", "off"].contains lower then .ok false
  else .error (.notBool lower)

/-- The value of a character in base sixty-four. -/
def base64Digit? (c : Char) : Option Nat :=
  if 'A' ≤ c ∧ c ≤ 'Z' then some (c.toNat - 'A'.toNat)
  else if 'a' ≤ c ∧ c ≤ 'z' then some (c.toNat - 'a'.toNat + 26)
  else if '0' ≤ c ∧ c ≤ '9' then some (c.toNat - '0'.toNat + 52)
  else if c = '+' then some 62
  else if c = '/' then some 63
  else none

/-- The places in base sixty-four up to the padding, which ends them once it fills a group of
four; other characters are passed over. There are none if the last group is not filled. -/
def base64Places? : List Nat → Nat → List Char → Option (List Nat)
  | places, _, [] => if places.length % 4 = 0 then some places.reverse else none
  | places, padding, c :: rest =>
    if c = '=' then
      if 2 ≤ places.length % 4 ∧ 4 ≤ places.length % 4 + padding + 1 then some places.reverse
      else base64Places? places (if 2 ≤ places.length % 4 then padding + 1 else padding) rest
    else
      match base64Digit? c with
      | some place => base64Places? (place :: places) 0 rest
      | none => base64Places? places padding rest

/-- The bytes that places in base sixty-four spell. -/
def base64Bytes : List Nat → List UInt8
  | a :: b :: c :: d :: rest =>
    UInt8.ofNat (a * 4 + b / 16) :: UInt8.ofNat (b % 16 * 16 + c / 4) ::
      UInt8.ofNat (c % 4 * 64 + d) :: base64Bytes rest
  | [a, b, c] => [UInt8.ofNat (a * 4 + b / 16), UInt8.ofNat (b % 16 * 16 + c / 4)]
  | [a, b] => [UInt8.ofNat (a * 4 + b / 16)]
  | _ => []

def binary (text : String) : Except Fault (List UInt8) :=
  if text.toList.all (·.toNat < 128) then
    match base64Places? [] 0 text.toList with
    | some places => .ok (base64Bytes places)
    | none => .error .malformed
  else .error .malformed

def timestamp (text : String) : Except ScalarFault Value :=
  let cs := text.toList
  let ended := if cs.getLast? = some '\n' then cs.dropLast else cs
  match Timestamp.parse? ended with
  | none => .error .notDate
  | some stamp =>
    match stamp.fault? with
    | some fault => .error fault
    | none => .ok (.timestamp text)

/-- The value of a scalar with a tag; there is none if the tag asks for more than one value. -/
def value (tag : Tag) (text : String) : Except Fault Value :=
  match tag with
  | .null => .ok .null
  | .bool => ((bool text).map Value.bool).mapError .scalar
  | .int => ((int text).map fun n => Value.number (.int n)).mapError .scalar
  | .float => ((float text).map fun x => Value.number (.float x)).mapError .scalar
  | .str => .ok (.text text)
  | .binary => (binary text).map .binary
  | .timestamp => (timestamp text).mapError .scalar
  | _ => .error .malformed

end SdkCatalog.Yaml.Scalar
