/-!
Numbers with 53 binary digits: read from decimals by rounding to the nearest, ties to even, and written with the fewest
decimal digits that read back.
-/

namespace WriteGuard

/-- A floating-point number. -/
inductive Double where
  | nan
  | infinite (negative : Bool)
  /-- The number `significand * 2 ^ exponent` with its sign. -/
  | finite (negative : Bool) (significand : Nat) (exponent : Int)
  deriving DecidableEq, Repr, Inhabited

namespace Double

/-- The smallest exponent of a number. -/
def minExponent : Int := -1074

/-- The greatest exponent of a number. -/
def maxExponent : Int := 971

/-- A fraction multiplied by a power of a base, as numerator and denominator. -/
def scale (base : Nat) (power : Int) (fraction : Nat × Nat) : Nat × Nat :=
  if 0 ≤ power then (fraction.1 * base.pow power.toNat, fraction.2)
  else (fraction.1, fraction.2 * base.pow (-power).toNat)

/-- A fraction rounded to the nearest whole number, ties to even. -/
def round (fraction : Nat × Nat) : Nat :=
  let whole := fraction.1 / fraction.2
  let rest := 2 * (fraction.1 % fraction.2)
  if fraction.2 < rest || (rest = fraction.2 && whole % 2 = 1) then whole + 1 else whole

/-- The greatest power of two that is not above a positive fraction. -/
def log2 (fraction : Nat × Nat) : Int :=
  let guess : Int := (Nat.log2 fraction.1 : Int) - Nat.log2 fraction.2
  let scaled := scale 2 (-guess) fraction
  if scaled.2 ≤ scaled.1 then guess else guess - 1

/-- The number nearest to a positive fraction. -/
def ofFraction (negative : Bool) (fraction : Nat × Nat) : Double :=
  let exponent := max (log2 fraction - 52) minExponent
  let significand := round (scale 2 (-exponent) fraction)
  let (significand, exponent) :=
    if significand = Nat.pow 2 53 then (Nat.pow 2 52, exponent + 1) else (significand, exponent)
  if maxExponent < exponent then .infinite negative else .finite negative significand exponent

/-- The number nearest to `digits * 10 ^ power`. -/
def ofDecimal (negative : Bool) (digits : Nat) (power : Int) : Double :=
  if digits = 0 then .finite negative 0 0
  else
    let size : Int := power + (Nat.toDigits 10 digits).length
    if 400 < size then .infinite negative
    else if size < -400 then .finite negative 0 0
    else ofFraction negative (scale 10 power (digits, 1))

/-! ### Shortest decimals -/

/-- A positive number as a fraction. -/
def fraction (significand : Nat) (exponent : Int) : Nat × Nat := scale 2 exponent (significand, 1)

/-- Whether a first fraction is below a second one. -/
def below (a b : Nat × Nat) : Bool := a.1 * b.2 < b.1 * a.2

/-- The decimals between these two ends read back as the number; `closed` tells whether the ends do. -/
structure Interval where
  low : Nat × Nat
  high : Nat × Nat
  closed : Bool

/-- The interval of a positive number. Below a power of two its neighbour is half as far. -/
def interval (significand : Nat) (exponent : Int) : Interval where
  low := if significand = Nat.pow 2 52 && minExponent < exponent then fraction (4 * significand - 1) (exponent - 2)
    else fraction (2 * significand - 1) (exponent - 1)
  high := fraction (2 * significand + 1) (exponent - 1)
  closed := significand % 2 = 0

/-- Whether a fraction reads back as the number. -/
def Interval.holds (i : Interval) (a : Nat × Nat) : Bool :=
  if i.closed then !below a i.low && !below i.high a else below i.low a && below a i.high

/-- The power of ten of the first digit of a positive fraction. -/
def log10 (a : Nat × Nat) : Int :=
  let guess : Int := log2 a * 30103 / 100000
  let fits (t : Int) : Bool := !below a (scale 10 t (1, 1)) && below a (scale 10 (t + 1) (1, 1))
  ([guess, guess + 1, guess - 1, guess + 2, guess - 2].find? fits).getD guess

/-- The decimal of `count` digits that is nearest to a number and reads back as it, if there is one. -/
def decimalOf? (i : Interval) (a : Nat × Nat) (first : Int) (count : Nat) : Option (Nat × Int) :=
  let power := first - (count : Int) + 1
  let scaled := scale 10 (-power) a
  let lower := scaled.1 / scaled.2
  let nearest := round scaled
  let other := if nearest = lower then lower + 1 else lower
  let reads (n : Nat) : Bool := i.holds (scale 10 power (n, 1))
  if reads nearest then some (nearest, power) else if reads other then some (other, power) else none

/-- The shortest decimal that reads back as a positive number: its digits and the power of ten of the last one. -/
def shortest (significand : Nat) (exponent : Int) : Nat × Int :=
  let a := fraction significand exponent
  let first := log10 a
  ((List.range 17).findSome? fun n => decimalOf? (interval significand exponent) a first (n + 1)).getD (0, 0)

/-- A decimal written out, with at least one digit on each side of the point. -/
def positional (digits : Nat) (power : Int) : String :=
  let text := Nat.toDigits 10 digits
  if 0 ≤ power then String.ofList (text ++ List.replicate power.toNat '0') ++ ".0"
  else
    let places := (-power).toNat
    let padded := List.replicate (places + 1 - text.length) '0' ++ text
    let whole := padded.take (padded.length - places)
    let part := ((padded.drop (padded.length - places)).reverse.dropWhile (· = '0')).reverse
    String.ofList (whole ++ '.' :: (if part.isEmpty then ['0'] else part))

/-- A number in decimal digits; `nan` is the word for what is no number. -/
def text (nan : String) : Double → String
  | .nan => nan
  | .infinite negative => if negative then "-inf" else "inf"
  | .finite negative significand exponent =>
    (if negative then "-" else "") ++
      (if significand = 0 then "0.0"
        else let (digits, power) := shortest significand exponent; positional digits power)

end Double

end WriteGuard
