import PipeQuery.Decimal.Binary64

/-!
# `PipeQuery.Decimal.Shortest`: the fewest digits that read back

A finite number is written with the fewest digits that lie in the interval of reals rounding to
it, and of the candidates with as many digits with the one nearest to it. For one digit, two, and
so on, only the two neighbours of the number on that grid of decimals need a look: if any point
of the grid lies in the interval, one of them does.
-/

set_option autoImplicit false

namespace PipeQuery.Decimal

open Binary64 (powerUp powerDown)

/-- The reals that round to a number, as whole multiples of `unit`. The ends belong to the interval
exactly if `closed`. -/
structure Interval where
  low : Nat
  value : Nat
  high : Nat
  /-- The common denominator of the three. -/
  unit : Nat
  closed : Bool
deriving DecidableEq, Repr

/-- The interval of a positive number. Its lower half is half as wide at a power of two, where the
numbers below stand closer. -/
def Interval.of (significand : Nat) (exponent : Int) : Interval :=
  let narrow := significand = Binary64.normalBound && Binary64.minExponent < exponent
  let quarters := if narrow then 4 * significand - 1 else 4 * significand - 2
  { low := quarters * powerUp 2 exponent
    value := 4 * significand * powerUp 2 exponent
    high := (4 * significand + 2) * powerUp 2 exponent
    unit := 4 * powerDown 2 exponent
    closed := significand % 2 = 0 }

/-- Decimal digits and the power of ten of the last one. -/
structure Digits where
  digits : Nat
  exponent : Int
deriving DecidableEq, Repr

/-- `digits * 10 ^ exponent` in the given units, both sides made whole: the pair to compare with is
the value times the second. -/
def Digits.inUnits (d : Digits) (unit : Nat) : Nat × Nat :=
  (d.digits * powerUp 10 d.exponent * unit, powerDown 10 d.exponent)

/-- The decimal rounds to the number of the interval. -/
def Interval.holds (i : Interval) (d : Digits) : Bool :=
  let (n, scale) := d.inUnits i.unit
  if i.closed then i.low * scale ≤ n && n ≤ i.high * scale
  else i.low * scale < n && n < i.high * scale

/-- The distance of a decimal from the number, in units that depend on its exponent only. -/
def Interval.distance (i : Interval) (d : Digits) : Nat :=
  let (n, scale) := d.inUnits i.unit
  (n - i.value * scale) + (i.value * scale - n)

/-- The largest decimal with the given exponent that does not exceed the number. -/
def Interval.floor (i : Interval) (exponent : Int) : Digits :=
  ⟨i.value * powerDown 10 exponent / (i.unit * powerUp 10 exponent), exponent⟩

/-- The better of the two neighbours of the number on a grid, if one rounds to it. A tie goes to
the even one. -/
def Interval.onGrid? (i : Interval) (exponent : Int) : Option Digits :=
  let below := i.floor exponent
  let above : Digits := { below with digits := below.digits + 1 }
  match i.holds below, i.holds above with
  | true, true =>
    let down := i.distance below
    let up := i.distance above
    if down < up || (down = up && below.digits % 2 = 0) then some below else some above
  | true, false => some below
  | false, true => some above
  | false, false => none

/-- The first grid with a hit, from coarse to fine; seventeen digits always suffice. -/
def Interval.search (i : Interval) : Nat → Int → Option Digits
  | 0, _ => none
  | fuel + 1, exponent =>
    match i.onGrid? exponent with
    | some d => some d
    | none => i.search fuel (exponent - 1)

/-- The digits without zeros at the end. -/
def Digits.trimmed (d : Digits) : Nat → Digits
  | 0 => d
  | fuel + 1 =>
    if d.digits ≠ 0 && d.digits % 10 = 0 then
      Digits.trimmed ⟨d.digits / 10, d.exponent + 1⟩ fuel
    else d

/-- The decimal exponent of the leading digit of a positive number is at most this. -/
def leadingExponent (significand : Nat) (exponent : Int) : Int :=
  -- 1233 / 4096 is so close to the decimal logarithm of two that, over all exponents of doubles, the
  -- one that is added makes up for the difference.
  ((Nat.log2 significand : Int) + exponent + 1) * 1233 / 4096 + 1

/-- The fewest digits that read back as a positive number. -/
def shortest (significand : Nat) (exponent : Int) : Digits :=
  let i := Interval.of significand exponent
  ((i.search 24 (leadingExponent significand exponent)).getD ⟨0, 0⟩).trimmed 32

/-- How a number is laid out: positional notation for leading digits at these places, an exponent
otherwise. -/
structure Layout where
  minPositional : Int
  maxPositional : Int

/-- Positional from the fifth place behind the point to the sixteenth before it. -/
def Layout.standard : Layout :=
  ⟨-5, 15⟩

/-- Digits of a positive number as text. Positional notation has a digit on either side of the
point; with an exponent the point stands only in front of further digits, and the exponent has
a sign. -/
def Layout.render (layout : Layout) (d : Digits) : String :=
  let digits := (toString d.digits).toList
  let leading : Int := d.exponent + digits.length - 1
  if layout.minPositional ≤ leading && leading ≤ layout.maxPositional then
    if 0 ≤ d.exponent then
      String.ofList (digits ++ List.replicate d.exponent.toNat '0') ++ ".0"
    else if leading < 0 then
      "0." ++ String.ofList (List.replicate (-leading - 1).toNat '0' ++ digits)
    else
      String.ofList (digits.take (leading.toNat + 1)) ++ "." ++
        String.ofList (digits.drop (leading.toNat + 1))
  else
    let fraction := digits.drop 1
    let exponent :=
      if leading < 0 then "e-" ++ toString (-leading).toNat else "e+" ++ toString leading.toNat
    String.ofList (digits.take 1) ++
      (if fraction.isEmpty then "" else "." ++ String.ofList fraction) ++ exponent

end PipeQuery.Decimal

namespace PipeQuery.Binary64

/-- The number as text, the fewest digits that read back; infinity has none. -/
def render? : Binary64 → Option String
  | .infinite => none
  | .finite 0 _ => some "0.0"
  | .finite significand exponent =>
    some (Decimal.Layout.standard.render (Decimal.shortest significand exponent))

end PipeQuery.Binary64
