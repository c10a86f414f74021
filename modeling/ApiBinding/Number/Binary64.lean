/-! Binary floating-point numbers of 64 bits as exact values, and rounding to them. -/

namespace ApiBinding

/-- A floating-point number. A finite one is `mantissa * 2 ^ exponent` up to its sign, with
`mantissa < 2 ^ 53` and the least exponent that allows it; zero keeps a sign. -/
inductive Binary64 where
  | finite (negative : Bool) (mantissa : Nat) (exponent : Int)
  | infinity (negative : Bool)
  | nan
deriving DecidableEq, Repr

namespace Binary64

/-- The exponent of the finest grid, on which zero and the smallest numbers lie. -/
def minExponent : Int := -1074

/-- The exponent of the coarsest grid. -/
def maxExponent : Int := 971

/-- Two to the power of 52: the least mantissa above the finest grid. -/
def leadingBit : Nat := 4503599627370496

def powerOfTwo (exponent : Nat) : Nat := Nat.pow 2 exponent

def powerOfTen (exponent : Nat) : Nat := Nat.pow 10 exponent

def signedZero (negative : Bool) : Binary64 :=
  .finite negative 0 minExponent

/-- The natural number nearest to a quotient; a half goes to the even neighbour. -/
def roundQuotient (numerator denominator : Nat) : Nat :=
  let quotient := numerator / denominator
  let twice := 2 * (numerator % denominator)
  if twice < denominator || (twice == denominator && quotient % 2 == 0) then quotient
  else quotient + 1

/-- Multiplies a quotient by a power of two without leaving the natural numbers. -/
def shiftQuotient (numerator denominator : Nat) (shift : Int) : Nat × Nat :=
  (numerator * powerOfTwo shift.toNat, denominator * powerOfTwo (-shift).toNat)

/-- The number nearest to a quotient; one beyond the range is infinite. -/
def ofQuotient (negative : Bool) (numerator denominator : Nat) : Binary64 :=
  if numerator == 0 then signedZero negative
  else
    let estimate : Int := (numerator.log2 : Int) - denominator.log2 - 52
    let scaled := shiftQuotient numerator denominator (-estimate)
    let exact := if scaled.1 / scaled.2 < leadingBit then estimate - 1 else estimate
    let exponent := max exact minExponent
    let scaled := shiftQuotient numerator denominator (-exponent)
    let mantissa := roundQuotient scaled.1 scaled.2
    let carried :=
      if mantissa == 2 * leadingBit then (leadingBit, exponent + 1) else (mantissa, exponent)
    if carried.2 > maxExponent then .infinity negative
    else .finite negative carried.1 carried.2

/-- The number nearest to `digits * 10 ^ power`. Powers far outside the range are settled by
the count of digits alone. -/
def ofDecimal (negative : Bool) (digits : Nat) (power : Int) : Binary64 :=
  if digits == 0 then signedZero negative
  else
    let magnitude : Int := (Nat.toDigits 10 digits).length + power
    if magnitude > 400 then .infinity negative
    else if magnitude < -400 then signedZero negative
    else ofQuotient negative (digits * powerOfTen power.toNat) (powerOfTen (-power).toNat)

/-- The integer a floating-point number stands for, if it has no fraction. -/
def toInt? : Binary64 → Option Int
  | .finite negative mantissa exponent =>
    let divisor := powerOfTwo (-exponent).toNat
    if mantissa % divisor == 0 then
      let magnitude : Int := (mantissa / divisor * powerOfTwo exponent.toNat : Nat)
      some (if negative then -magnitude else magnitude)
    else none
  | _ => none

def isZero : Binary64 → Bool
  | .finite _ mantissa _ => mantissa == 0
  | _ => false

end Binary64

end ApiBinding
