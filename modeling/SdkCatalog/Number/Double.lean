/-! Binary floating point numbers of sixty-four bits, in exact arithmetic. A finite number is a
sign and a rank, its place in the ascending list of magnitudes, and each magnitude is a whole
number of units of 2⁻¹⁰⁷⁴. Rounding takes the nearest magnitude and, halfway between two, the one
with the even rank. -/

namespace SdkCatalog

/-- The number of finite magnitudes: 2047 stretches of 2⁵² each. -/
def Double.rankLimit : Nat := 2047 <<< 52

/-- A finite double. -/
structure Double where
  /-- The sign, which also tells the two zeros apart. -/
  negative : Bool
  /-- The number of smaller magnitudes. -/
  rank : Nat
  rank_lt : rank < Double.rankLimit
  deriving DecidableEq

namespace Double

/-- The number of magnitudes from a power of two to the next: 2⁵². -/
def stretch : Nat := 1 <<< 52

def unitsPerOne : Nat := 1 <<< 1074

/-- The magnitude of a rank in units of 2⁻¹⁰⁷⁴: below 2⁵³ ranks step by one unit, and from each
power of two on the step is twice as wide. -/
def unitsOfRank (rank : Nat) : Nat :=
  if rank < stretch then rank else (stretch + rank % stretch) <<< (rank / stretch - 1)

def units (d : Double) : Nat :=
  unitsOfRank d.rank

/-- The value in units of 2⁻¹⁰⁷⁴. -/
def signedUnits (d : Double) : Int :=
  if d.negative then -(d.units : Int) else d.units

/-- The quotient rounded to the nearest whole number, a half to the even one. -/
def roundHalfEven (p q : Nat) : Nat :=
  let floor := p / q
  let twice := 2 * (p % q)
  if twice < q then floor else if q < twice then floor + 1 else floor + floor % 2

/-- The rank of the magnitude nearest to `p / q`, as if ranks had no limit. -/
def nearestRank (p q : Nat) : Nat :=
  let scaled := p * unitsPerOne
  -- Magnitudes near the quotient are `2 ^ step` units apart; rounding up to the next power of two
  -- gives the first rank of the next stretch by itself.
  let step := (scaled / q).log2 - 52
  step * stretch + roundHalfEven scaled (q <<< step)

/-- The double of a sign and a rank, if the rank is that of a finite one. -/
def ofRank? (negative : Bool) (rank : Nat) : Option Double :=
  if h : rank < rankLimit then some ⟨negative, rank, h⟩ else none

/-- The double nearest to `p / q` with a sign; there is none when it would be infinite. -/
def ofRatio? (negative : Bool) (p q : Nat) : Option Double :=
  ofRank? negative (nearestRank p q)

def ofSign (negative : Bool) : Double :=
  ⟨negative, 0, by decide⟩

/-- The double nearest to `significand * 10 ^ exponent` with a sign. Powers of ten far beyond the
range are not computed: they are infinite, or zero. -/
def ofDecimal? (negative : Bool) (significand : Nat) : Int → Option Double
  | .ofNat up =>
    if significand = 0 then some (ofSign negative)
    else if 400 < up then none
    else ofRatio? negative (significand * Nat.pow 10 up) 1
  | .negSucc down =>
    if significand.log2 / 3 + 340 < down then some (ofSign negative)
    else ofRatio? negative significand (Nat.pow 10 (down + 1))

/-- The whole number that the double is, if it is one. -/
def toInt? (d : Double) : Option Int :=
  if d.units % unitsPerOne = 0 then some (d.signedUnits / unitsPerOne) else none

end Double

/-- A double that may also be infinite or no number. -/
inductive FloatingPoint where
  | finite (value : Double)
  | infinite (negative : Bool)
  | nan
  deriving DecidableEq

namespace FloatingPoint

/-- The value nearest to `significand * 10 ^ exponent`, infinite beyond the finite ones. -/
def ofDecimal (negative : Bool) (significand : Nat) (exponent : Int) : FloatingPoint :=
  (Double.ofDecimal? negative significand exponent).elim (.infinite negative) .finite

end FloatingPoint

/-! ### The shortest text

The shortest decimal text of a double. Of the decimals with the fewest digits that round to
the double, the one nearest to its value is written: plainly with at least one decimal place, or
with an exponent when the number is very small or very large. -/

namespace Double

/-- The exponent `k` with `10 ^ (k - 1) ≤ p / q < 10 ^ k`, for a positive quotient. -/
def decimalPoint (p q : Nat) : Int :=
  if q ≤ p then (Nat.toDigits 10 (p / q)).length
  else
    let places := (Nat.toDigits 10 (q / p)).length
    if q ≤ p * Nat.pow 10 (places - 1) then 2 - (places : Int) else 1 - (places : Int)

/-- The magnitude divided by `10 ^ exponent`, as a quotient. -/
def scaledBy (d : Double) : Int → Nat × Nat
  | .ofNat up => (d.units, unitsPerOne * Nat.pow 10 up)
  | .negSucc down => (d.units * Nat.pow 10 (down + 1), unitsPerOne)

/-- The two whole numbers around a quotient, the nearer first and, halfway, the even one first. -/
def neighbours (p q : Nat) : List Nat :=
  let floor := p / q
  if roundHalfEven p q = floor then [floor, floor + 1] else [floor + 1, floor]

/-- The decimal of the given number of digits nearest to the magnitude, among those that round to
the double. -/
def decimalOfWidth? (d : Double) (point : Int) (width : Nat) : Option (Nat × Int) :=
  let exponent := point - width
  let (p, q) := d.scaledBy exponent
  ((neighbours p q).find? fun significand =>
    ofDecimal? d.negative significand exponent = some d).map (·, exponent)

/-- The decimal that is exactly the magnitude, with its exponent of ten: a unit is `5 ^ 1074` times
`10 ^ (-1074)`. -/
def exactDecimal (d : Double) : Nat × Int :=
  (d.units * Nat.pow 5 1074, -1074)

/-- The shortest decimal that rounds to the double, with its exponent of ten. Seventeen digits
suffice; the exact decimal stands for what they would not find. -/
def shortest (d : Double) : Nat × Int :=
  let point := decimalPoint d.units unitsPerOne
  ((List.range 17).findSome? fun n => d.decimalOfWidth? point (n + 1)).getD d.exactDecimal

/-- The plain notation is used when the exponent of the first digit, one less than the given
point, is from -4 to 15. -/
def isPlain (point : Int) : Bool :=
  -4 < point && point ≤ 16

/-- The digits with the decimal point put behind the first `point` of them, filled up with zeros
so that a digit stands on each side. -/
def plainText (digits : List Char) (point : Int) : List Char :=
  if point ≤ 0 then
    '0' :: '.' :: (List.replicate (-point).toNat '0' ++ digits)
  else
    let whole := digits.take point.toNat
    let decimals := digits.drop point.toNat
    whole ++ List.replicate (point.toNat - digits.length) '0' ++ '.' ::
      (if decimals.isEmpty then ['0'] else decimals)

/-- The digits with the point behind the first one and an exponent of a sign and at least two
digits. -/
def exponentText (digits : List Char) (point : Int) : List Char :=
  let power := point - 1
  let size := Nat.toDigits 10 power.natAbs
  let mantissa :=
    match digits with
    | first :: second :: rest => first :: '.' :: second :: rest
    | few => few
  mantissa ++ 'e' :: (if power < 0 then '-' else '+') ::
    (if size.length < 2 then '0' :: size else size)

/-- The text of a magnitude. -/
def magnitudeText (d : Double) : List Char :=
  if d.rank = 0 then "0.0".toList
  else
    let (significand, exponent) := d.shortest
    let written := Nat.toDigits 10 significand
    let point := written.length + exponent
    let digits := (written.reverse.dropWhile (· == '0')).reverse
    if isPlain point then plainText digits point else exponentText digits point

/-- The shortest text that reads back as the double. -/
def text (d : Double) : String :=
  String.ofList (if d.negative then '-' :: d.magnitudeText else d.magnitudeText)

end Double

/-! ### Sums and products -/

namespace FloatingPoint

/-- The nearest number to a quotient of a sign, infinite beyond the finite ones. -/
def ofRatio (negative : Bool) (p q : Nat) : FloatingPoint :=
  (Double.ofRatio? negative p q).elim (.infinite negative) .finite

def neg : FloatingPoint → FloatingPoint
  | .finite x => .finite { x with negative := !x.negative }
  | .infinite negative => .infinite !negative
  | .nan => .nan

/-- The sum. A sum of zero is negative only if both numbers are. -/
def add : FloatingPoint → FloatingPoint → FloatingPoint
  | .finite x, .finite y =>
    let sum := x.signedUnits + y.signedUnits
    if sum = 0 then .finite (Double.ofSign (x.negative && y.negative))
    else ofRatio (decide (sum < 0)) sum.natAbs Double.unitsPerOne
  | .infinite a, .infinite b => if a = b then .infinite a else .nan
  | .infinite a, .finite _ => .infinite a
  | .finite _, .infinite b => .infinite b
  | _, _ => .nan

/-- The product with a positive finite number. -/
def scale (factor : Double) : FloatingPoint → FloatingPoint
  | .finite x =>
    ofRatio x.negative (x.units * factor.units) (Double.unitsPerOne * Double.unitsPerOne)
  | other => other

end FloatingPoint

end SdkCatalog
