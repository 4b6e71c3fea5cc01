import PipeQuery.Text.Ascii

/-!
# `PipeQuery.Decimal.Binary64`: the nearest double

A decimal literal stands for the binary64 number nearest to it, a tie going to the even one. The
rounding is done with whole numbers only: the literal is a fraction, the fraction is scaled to a
53-bit quotient, and the remainder decides. Literals carry no sign, so no number here does.
-/

set_option autoImplicit false

namespace PipeQuery

/-- A binary64 number without sign: `significand * 2 ^ exponent`, or infinity. -/
inductive Binary64 where
  | finite (significand : Nat) (exponent : Int)
  | infinite
deriving DecidableEq, Repr, Inhabited

namespace Binary64

/-- The smallest exponent of a finite number. -/
def minExponent : Int :=
  -1074

/-- The largest exponent of a finite number. -/
def maxExponent : Int :=
  971

/-- The number zero. -/
def zero : Binary64 :=
  .finite 0 minExponent

/-- The numerator of a power with a whole exponent. -/
def powerUp (base : Nat) (exponent : Int) : Nat :=
  Nat.pow base exponent.toNat

/-- The denominator of a power with a whole exponent. -/
def powerDown (base : Nat) (exponent : Int) : Nat :=
  Nat.pow base (-exponent).toNat

/-- The quotient rounded to a whole number, a half to the even one. -/
def roundDiv (num den : Nat) : Nat :=
  let q := num / den
  let r := num % den
  if den < 2 * r || (2 * r = den && q % 2 = 1) then q + 1 else q

/-- The numbers with 53 bits lie below this one. -/
def significandBound : Nat :=
  Nat.pow 2 53

/-- The least number with 53 bits. -/
def normalBound : Nat :=
  Nat.pow 2 52

/-- The exponent at which `num / den` becomes a number of 53 bits in front of the point, or the
least one. -/
def exponentOf (num den : Nat) : Int :=
  let guess : Int := (Nat.log2 num : Int) - (Nat.log2 den : Int) - 53
  -- At `guess` the quotient has 53 or 54 bits, and one step up mends the latter.
  let fits := num * powerDown 2 guess < den * powerUp 2 guess * significandBound
  max minExponent (if fits then guess else guess + 1)

/-- The number nearest to `num / den`; both are positive. -/
def ofFraction (num den : Nat) : Binary64 :=
  let exponent := exponentOf num den
  let significand := roundDiv (num * powerDown 2 exponent) (den * powerUp 2 exponent)
  if significand = 0 then zero
  else if significand = significandBound then
    if exponent < maxExponent then .finite normalBound (exponent + 1) else .infinite
  else if maxExponent < exponent then .infinite
  else .finite significand exponent

/-- The number nearest to `digits * 10 ^ exponent`. Far outside the range of finite numbers no
power of ten is computed. -/
def ofDecimal (digits : Nat) (exponent : Int) : Binary64 :=
  let bits : Int := Nat.log2 digits
  if digits = 0 then zero
  else if 400 < exponent + bits / 4 then .infinite
  else if exponent + bits < -400 then zero
  else ofFraction (digits * powerUp 10 exponent) (powerDown 10 exponent)

/-- The exponent that a literal writes behind its `e`. -/
def readExponent : List Char → Int
  | '-' :: digits => -(Text.decimalValue digits : Int)
  | '+' :: digits => Text.decimalValue digits
  | digits => Text.decimalValue digits

/-- The number that a literal of digits, perhaps with a point and an exponent, stands for. -/
def ofLiteral (literal : String) : Binary64 :=
  let mantissa := literal.toList.takeWhile fun c => c ≠ 'e' && c ≠ 'E'
  let exponent := readExponent (literal.toList.drop (mantissa.length + 1))
  let integer := mantissa.takeWhile (· ≠ '.')
  let fraction := mantissa.drop (integer.length + 1)
  ofDecimal (Text.decimalValue (integer ++ fraction)) (exponent - fraction.length)

end Binary64

end PipeQuery
