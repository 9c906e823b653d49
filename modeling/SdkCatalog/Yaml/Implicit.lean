import SdkCatalog.Text.Basic
import SdkCatalog.Yaml.Basic

/-! The tag of a plain scalar, which its text alone decides. -/

namespace SdkCatalog.Yaml

/-! ### Points in time

Dates and times. Only whether they exist matters: a date has a month and a day of the
calendar, a time stays within its day, and a distance from universal time is less than a day. -/

/-- A time of day and its distance from universal time in seconds, if one is given. -/
structure TimeOfDay where
  hour : Nat
  minute : Nat
  second : Nat
  offset : Option Int

structure Timestamp where
  year : Nat
  month : Nat
  day : Nat
  time : Option TimeOfDay

namespace Timestamp

/-- The number of ASCII digits at the head of a text, as many as are allowed and at least as many
as are needed, and the rest. -/
def number? (least most : Nat) (cs : List Char) : Option (Nat × List Char) :=
  let digits := (cs.take most).takeWhile Char.isDigit
  if digits.length < least then none
  else
    some (Text.ofDigits 10 (digits.filterMap (Text.digitIn? 10)), cs.drop digits.length)

/-- The text after a character. -/
def after? (expected : Char) : List Char → Option (List Char)
  | [] => none
  | c :: rest => if c = expected then some rest else none

def dropBlanks (cs : List Char) : List Char :=
  cs.dropWhile fun c => c == ' ' || c == '\t'

/-- The text after what stands between a date and a time. -/
def afterDate? : List Char → Option (List Char)
  | [] => none
  | c :: rest =>
    if c = 'T' ∨ c = 't' then some rest
    else if c = ' ' ∨ c = '\t' then some (dropBlanks rest)
    else none

/-- The minutes of a distance from universal time, zero when there are none. -/
def offsetMinutes? (cs : List Char) : Option Nat :=
  match cs with
  | [] => some 0
  | _ => do
    let (minutes, rest) ← number? 2 2 (← after? ':' cs)
    if rest.isEmpty then some minutes else none

/-- The distance from universal time that ends a text, if there is one. -/
def offset? (cs : List Char) : Option (Option Int) :=
  match cs with
  | [] => some none
  | _ =>
    match dropBlanks cs with
    | ['Z'] => some (some 0)
    | sign :: rest =>
      if sign = '+' ∨ sign = '-' then do
        let (hours, rest') ← number? 1 2 rest
        let minutes ← offsetMinutes? rest'
        let seconds : Int := hours * 3600 + minutes * 60
        some (some (if sign = '-' then -seconds else seconds))
      else none
    | [] => none

/-- The text after the decimals of a second, if there are any. -/
def dropFraction (cs : List Char) : List Char :=
  match cs with
  | '.' :: rest => rest.dropWhile Char.isDigit
  | _ => cs

def time? (cs : List Char) : Option TimeOfDay := do
  let (hour, rest) ← number? 1 2 cs
  let (minute, rest) ← number? 2 2 (← after? ':' rest)
  let (second, rest) ← number? 2 2 (← after? ':' rest)
  let offset ← offset? (dropFraction rest)
  some ⟨hour, minute, second, offset⟩

/-- The date that a text spells, with or without a time. -/
def parse? (cs : List Char) : Option Timestamp := do
  let (year, rest) ← number? 4 4 cs
  let (month, rest) ← number? 1 2 (← after? '-' rest)
  let (day, rest) ← number? 1 2 (← after? '-' rest)
  if rest.isEmpty then some ⟨year, month, day, none⟩
  else
    let time ← time? (← afterDate? rest)
    some ⟨year, month, day, some time⟩

def isLeap (year : Nat) : Bool :=
  year % 4 == 0 && (year % 100 != 0 || year % 400 == 0)

def daysIn (year month : Nat) : Nat :=
  if month = 2 then if isLeap year then 29 else 28
  else if month = 4 ∨ month = 6 ∨ month = 9 ∨ month = 11 then 30
  else 31

/-- Why there is no such date, if there is none. -/
def dateFault? (stamp : Timestamp) : Option ScalarFault :=
  if stamp.year = 0 then some (.yearRange stamp.year)
  else if stamp.month = 0 ∨ 12 < stamp.month then some (.outside "month" "1..12")
  else if stamp.day = 0 ∨ daysIn stamp.year stamp.month < stamp.day then some .dayRange
  else none

/-- Why there is no such time, if there is none. -/
def TimeOfDay.fault? (time : TimeOfDay) : Option ScalarFault :=
  if 23 < time.hour then some (.outside "hour" "0..23")
  else if 59 < time.minute then some (.outside "minute" "0..59")
  else if 59 < time.second then some (.outside "second" "0..59")
  else none

/-- Why there is no such distance from universal time, if there is none. -/
def TimeOfDay.offsetFault? (time : TimeOfDay) : Option ScalarFault :=
  time.offset.bind fun seconds =>
    if 86400 ≤ seconds.natAbs then some (.offsetRange seconds) else none

/-- Why there is no such date and time, if there is none. The distance from universal time is
looked at first. -/
def fault? (stamp : Timestamp) : Option ScalarFault :=
  (stamp.time.bind TimeOfDay.offsetFault?).or
    (stamp.dateFault?.or (stamp.time.bind TimeOfDay.fault?))

end Timestamp

/-! ### Types told by form -/

namespace Implicit

def isDigit (c : Char) : Bool :=
  '0' ≤ c && c ≤ '9'

def isDigitOrBar (c : Char) : Bool :=
  isDigit c || c == '_'

def dropSign : List Char → List Char
  | '+' :: rest => rest
  | '-' :: rest => rest
  | rest => rest

/-- The text is one or more characters of a class. -/
def isRun (p : Char → Bool) (cs : List Char) : Bool :=
  !cs.isEmpty && cs.all p

/-- The text begins with a digit and goes on with digits and underscores. -/
def isWhole (cs : List Char) : Bool :=
  match cs with
  | [] => false
  | c :: rest => isDigit c && rest.all isDigitOrBar

/-- The text is a place in base sixty after a colon: a digit, or one below six before it. -/
def isSixty : List Char → Bool
  | [c] => isDigit c
  | [c, d] => '0' ≤ c && c ≤ '5' && isDigit d
  | _ => false

/-- A whole number: binary, octal, hexadecimal, decimal, or in base sixty. -/
def isInt (cs : List Char) : Bool :=
  match dropSign cs with
  | '0' :: 'b' :: rest => isRun (fun c => c == '0' || c == '1' || c == '_') rest
  | '0' :: 'x' :: rest => isRun (fun c => (Text.digitIn? 16 c).isSome || c == '_') rest
  | '0' :: rest => rest.all fun c => ('0' ≤ c && c ≤ '7') || c == '_'
  | unsigned =>
    match Text.pieces ':' unsigned with
    | first :: rest => isWhole first && rest.all isSixty
    | [] => false

/-- The exponent of a decimal, which needs its sign, or nothing. -/
def isExponent : List Char → Bool
  | [] => true
  | c :: sign :: digits =>
    (c == 'e' || c == 'E') && (sign == '+' || sign == '-') && isRun isDigit digits
  | _ => false

/-- A floating point number: a decimal with a point, one in base sixty, or a word. -/
def isFloat (cs : List Char) : Bool :=
  let unsigned := dropSign cs
  let whole := unsigned.takeWhile isDigitOrBar
  let rest := unsigned.dropWhile isDigitOrBar
  let decimal :=
    match rest with
    | '.' :: fraction => isWhole whole && isExponent (fraction.dropWhile isDigitOrBar)
    | _ => false
  let pointFirst :=
    match cs with
    | '.' :: fraction =>
      isWhole (fraction.takeWhile isDigitOrBar) && isExponent (fraction.dropWhile isDigitOrBar)
    | _ => false
  let sixty :=
    match Text.pieces '.' unsigned with
    | [places, fraction] =>
      match Text.pieces ':' places with
      | first :: second :: more =>
        isWhole first && (second :: more).all isSixty && fraction.all isDigitOrBar
      | _ => false
    | _ => false
  decimal || pointFirst || sixty || [".inf", ".Inf", ".INF"].contains (String.ofList unsigned) ||
    [".nan", ".NaN", ".NAN"].contains (String.ofList cs)

def boolTexts : List String :=
  ["yes", "Yes", "YES", "no", "No", "NO", "true", "True", "TRUE", "false", "False", "FALSE",
    "on", "On", "ON", "off", "Off", "OFF"]

def nullTexts : List String :=
  ["", "~", "null", "Null", "NULL"]

/-- A date of four, two and two digits, or a date and a time. -/
def isTimestamp (cs : List Char) : Bool :=
  match Timestamp.parse? cs with
  | some found => found.time.isSome || cs.length == 10
  | none => false

/-- The text without a line feed at its end, unless that is all of it. -/
def dropLineFeed (cs : List Char) : List Char :=
  if 1 < cs.length ∧ cs.getLast? = some '\n' then cs.dropLast else cs

def tag (text : String) : Tag :=
  let cs := dropLineFeed text.toList
  let shown := String.ofList cs
  if boolTexts.contains shown then .bool
  else if isFloat cs then .float
  else if isInt cs then .int
  else if shown = "<<" then .merge
  else if nullTexts.contains shown then .null
  else if isTimestamp cs then .timestamp
  else if shown = "=" then .value
  else .str

end Implicit

end SdkCatalog.Yaml
