import SdkCatalog.Number.Double
import SdkCatalog.Text.Basic

/-! Numbers: whole numbers of any size and floating point numbers, kept apart, and their exact
order and text. -/

namespace SdkCatalog

inductive Number where
  | int (value : Int)
  | float (value : FloatingPoint)
  deriving DecidableEq

/-- The most digits that a whole number in base ten may have when it is read or written. -/
def digitLimit : Nat := 4300

/-- The least magnitude that is too long to be written. -/
def shortestTooLong : Nat := Nat.pow 10 digitLimit

/-- The digits of a whole number in base ten, with its sign. -/
def intText (value : Int) : List Char :=
  let digits := Nat.toDigits 10 value.natAbs
  if value < 0 then '-' :: digits else digits

/-- The text of a floating point number, with the given words for what is not finite. -/
def FloatingPoint.textWith (infinity notNumber : String) : FloatingPoint → List Char
  | .finite value => value.text.toList
  | .infinite false => infinity.toList
  | .infinite true => '-' :: infinity.toList
  | .nan => notNumber.toList

namespace Number

/-- The number has few enough digits to be written. -/
def isWritable : Number → Bool
  | .int value => value.natAbs < shortestTooLong
  | .float _ => true

/-- A place on the line of all numbers, in units of 2⁻¹⁰⁷⁴ between the infinities. -/
inductive Place where
  | below
  | at (units : Int)
  | above
  deriving DecidableEq

def Place.before : Place → Place → Bool
  | .below, .below => false
  | .below, _ => true
  | .at _, .below => false
  | .at a, .at b => a < b
  | .at _, .above => true
  | .above, _ => false

/-- The place of a number; what is no number has none. -/
def place? : Number → Option Place
  | .int value => some (.at (value * Double.unitsPerOne))
  | .float (.finite value) => some (.at value.signedUnits)
  | .float (.infinite true) => some .below
  | .float (.infinite false) => some .above
  | .float .nan => none

/-- One number is less than another, exactly. What has no place is neither less nor greater. -/
def less (a b : Number) : Bool :=
  match a.place?, b.place? with
  | some p, some q => p.before q
  | _, _ => false

end Number

/-! ### Numerals

Numerals as they stand on the right of a constant. A numeral is a whole number in base ten,
sixteen, eight or two, or a decimal with a point or an exponent; anything else is no numeral. -/

/-- A numeral taken apart, before its value is computed. -/
inductive Numeral where
  /-- A whole number in a base that its first two characters name. -/
  | based (base : Nat) (digits : List Nat)
  /-- A whole number in base ten. -/
  | integer (negative : Bool) (digits : List Nat)
  /-- A decimal with a point or an exponent: the digits before and after the point, and the
  exponent of ten. -/
  | decimal (negative : Bool) (whole fraction : List Nat) (exponent : Int)
  deriving DecidableEq

namespace Numeral

open Text

/-- A sign, if one stands at the head, and the rest. -/
def sign : List Char → Bool × List Char
  | '+' :: rest => (false, rest)
  | '-' :: rest => (true, rest)
  | rest => (false, rest)

/-- The digits at the head, of any script, and the rest. -/
def digits (cs : List Char) : List Nat × List Char :=
  ((cs.takeWhile isDigit).filterMap digit?, cs.dropWhile isDigit)

/-- The base that the head of a prefixed numeral names, and the rest. -/
def base? : List Char → Option (Nat × List Char)
  | '0' :: c :: rest =>
    if c = 'x' ∨ c = 'X' then some (16, rest)
    else if c = 'o' ∨ c = 'O' then some (8, rest)
    else if c = 'b' ∨ c = 'B' then some (2, rest)
    else none
  | _ => none

/-- A prefixed whole number: no sign, and at least one digit of the base. -/
def based? (cs : List Char) : Option Numeral := do
  let (base, rest) ← base? cs
  let values ← rest.mapM (digitIn? base)
  if values.isEmpty then none else some (.based base values)

/-- A whole number in base ten, with an optional sign. -/
def integer? (cs : List Char) : Option Numeral :=
  let (negative, rest) := sign cs
  match digits rest with
  | (value :: values, []) => some (.integer negative (value :: values))
  | _ => none

/-- The exponent that ends a decimal, zero when there is none. -/
def exponent? : List Char → Option Int
  | [] => some 0
  | c :: cs =>
    if c = 'e' ∨ c = 'E' then
      match integer? cs with
      | some (.integer negative values) =>
        let size : Int := ofDigits 10 values
        some (if negative then -size else size)
      | _ => none
    else none

/-- The digits after a point, if there is a point, and the rest. -/
def fraction : List Char → List Nat × List Char
  | '.' :: rest => digits rest
  | rest => ([], rest)

/-- A decimal: an optional sign, digits on at least one side of an optional point, and an optional
exponent. -/
def decimal? (cs : List Char) : Option Numeral := do
  let (negative, unsigned) := sign cs
  let (whole, afterWhole) := digits unsigned
  let (decimals, afterDecimals) := fraction afterWhole
  if whole.isEmpty && decimals.isEmpty then none
  else
    let exponent ← exponent? afterDecimals
    some (.decimal negative whole decimals exponent)

/-- The numeral that a text spells, blanks around it aside. -/
def ofText? (cs : List Char) : Option Numeral :=
  let trimmed := trim cs
  (based? trimmed).or ((integer? trimmed).or (decimal? trimmed))

def signed (negative : Bool) (magnitude : Nat) : Int :=
  if negative then -(magnitude : Int) else magnitude

def nearest? (negative : Bool) (whole decimals : List Nat) (exponent : Int) : Option Double :=
  Double.ofDecimal? negative (ofDigits 10 (whole ++ decimals)) (exponent - decimals.length)

/-- A whole number that is too long to be read, with its count of digits. -/
structure TooLong where
  digits : Nat
  deriving DecidableEq

def TooLong.message (error : TooLong) : String :=
  s!"Exceeds the limit ({digitLimit} digits) for integer string conversion: value has " ++
    s!"{error.digits} digits; use sys.set_int_max_str_digits() to increase the limit"

/-- The value of a numeral. A decimal is rounded to a double, which becomes a whole number if it
is one, and has no value if it is infinite. -/
def value : Numeral → Except TooLong (Option Number)
  | .based base digits => .ok (some (.int (ofDigits base digits)))
  | .integer negative digits =>
    if digitLimit < digits.length then .error ⟨digits.length⟩
    else .ok (some (.int (signed negative (ofDigits 10 digits))))
  | .decimal negative whole decimals exponent =>
    .ok ((nearest? negative whole decimals exponent).map fun d =>
      d.toInt?.elim (.float (.finite d)) .int)

def parse (cs : List Char) : Except TooLong (Option Number) :=
  match ofText? cs with
  | some numeral => numeral.value
  | none => .ok none

end Numeral

end SdkCatalog
