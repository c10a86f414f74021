import ApiBinding.Number.Binary64

/-! The decimal text of a floating-point number: the fewest digits that read back, and of
those the nearest to the number. -/

namespace ApiBinding.Binary64

/-- The number `digits * 10 ^ power`. -/
structure Decimal where
  digits : Nat
  power : Int
deriving DecidableEq, Repr

/-- The interval of reals that round to a positive number, over a common scale: `unit` is the
scale of one quarter of the number's last place, `even` tells whether the ends belong to it. -/
structure Rounding where
  low : Nat
  value : Nat
  high : Nat
  even : Bool
  unit : Nat × Nat

/-- The neighbour below a power of two is half as far as the one above. -/
def Rounding.of (mantissa : Nat) (exponent : Int) : Rounding where
  low := 4 * mantissa - if mantissa == leadingBit && exponent > minExponent then 1 else 2
  value := 4 * mantissa
  high := 4 * mantissa + 2
  even := mantissa % 2 == 0
  unit := shiftQuotient 1 1 (exponent - 2)

/-- The place of the leading digit: a positive `number` with it lies between
`10 ^ place` and `10 ^ (place + 1)`. -/
def Rounding.place (r : Rounding) : Int :=
  ((Nat.toDigits 10 (r.value * r.unit.1 * powerOfTen 330 / r.unit.2)).length : Int) - 331

/-- The nearer of the value's two neighbours with `count` digits, of those that read back. The
leading digit stands at `place`. -/
def Rounding.nearest? (r : Rounding) (place : Int) (count : Nat) : Option Decimal :=
  let power := place - count + 1
  let grid := powerOfTen power.toNat * r.unit.2
  let scale := r.unit.1 * powerOfTen (-power).toNat
  let inside (digits : Nat) : Bool :=
    let point := digits * grid
    if r.even then r.low * scale ≤ point && point ≤ r.high * scale
    else r.low * scale < point && point < r.high * scale
  let below := r.value * scale / grid
  let above := below + 1
  let lowerFits := inside below
  let upperFits := inside above
  let toLower := r.value * scale - below * grid
  let toUpper := above * grid - r.value * scale
  let lowerNearer := toLower < toUpper || (toLower == toUpper && below % 2 == 0)
  if lowerFits && (!upperFits || lowerNearer) then some ⟨below, power⟩
  else if upperFits then
    some (if above == powerOfTen count then ⟨1, power + count⟩ else ⟨above, power⟩)
  else none

/-- The shortest decimal that reads back as a positive number. Seventeen digits always do. -/
def shortest (mantissa : Nat) (exponent : Int) : Decimal :=
  let rounding := Rounding.of mantissa exponent
  ((List.range' 1 17).findSome? (rounding.nearest? rounding.place)).getD ⟨0, 0⟩

/-! ## Layout -/

/-- Exponents are written with their sign and at least two digits. -/
def exponentText (exponent : Int) : String :=
  let digits := (Nat.repr exponent.natAbs)
  (if exponent < 0 then "-" else "+") ++ (if digits.length < 2 then "0" ++ digits else digits)

/-- Positional between `10 ^ -4` and `10 ^ 16`, where a whole number keeps one zero after the
point; scientific elsewhere, where it keeps none. -/
def Decimal.text (d : Decimal) : String :=
  let digits := Nat.toDigits 10 d.digits
  let point : Int := digits.length + d.power
  if -4 < point && point ≤ 16 then
    if point ≤ 0 then
      "0." ++ String.ofList (List.replicate (-point).toNat '0' ++ digits)
    else if d.power < 0 then
      String.ofList (digits.take point.toNat ++ '.' :: digits.drop point.toNat)
    else String.ofList (digits ++ List.replicate d.power.toNat '0') ++ ".0"
  else
    let fraction := if digits.length > 1 then '.' :: digits.drop 1 else []
    String.ofList (digits.take 1 ++ fraction) ++ "e" ++ exponentText (point - 1)

/-- The words for the numbers that have no digits. -/
structure SpecialNames where
  nan : String
  infinity : String

def text (names : SpecialNames) : Binary64 → String
  | .nan => names.nan
  | .infinity negative => (if negative then "-" else "") ++ names.infinity
  | .finite negative mantissa exponent =>
    (if negative then "-" else "") ++
      if mantissa == 0 then "0.0" else (shortest mantissa exponent).text

end ApiBinding.Binary64
