/-!
The numbers of the binary64 format, held exactly. A decimal is rounded to the nearest of them,
and each is printed with the fewest digits that read back.
-/

namespace Rollup

/-- A binary64 number; a finite one is `significand * 2 ^ exponent`, where the
significand is below 2^53 and the exponent at least -1074. -/
inductive Binary64 where
  | nan
  | infinite (negative : Bool)
  | finite (negative : Bool) (significand : Nat) (exponent : Int)
  deriving DecidableEq, Repr

namespace Binary64

/-- Rounds a quotient to the nearest integer, a half to the even one. -/
def roundQuotient (num den : Nat) : Nat :=
  let quotient := num / den
  let twice := 2 * (num % den)
  if twice < den then quotient
  else if den < twice then quotient + 1
  else quotient + quotient % 2

def scale (num den : Nat) (exponent : Int) : Nat × Nat :=
  if 0 ≤ exponent then (num * Nat.pow 2 exponent.toNat, den)
  else (num, den * Nat.pow 2 (-exponent).toNat)

/-- The nearest binary64 number to a positive fraction. -/
def ofQuotient (negative : Bool) (num den : Nat) : Binary64 :=
  let estimate : Int := num.log2 - den.log2 - 53
  let (n, d) := scale num den (-estimate)
  let fitting : Int := if n / d < Nat.pow 2 53 then estimate else estimate + 1
  let exponent : Int := if fitting < -1074 then -1074 else fitting
  let (n, d) := scale num den (-exponent)
  let significand := roundQuotient n d
  if significand == Nat.pow 2 53 then
    if exponent + 1 > 971 then infinite negative else finite negative (Nat.pow 2 52) (exponent + 1)
  else if exponent > 971 then infinite negative
  else finite negative significand exponent

/-- The nearest binary64 number to `coefficient * 10 ^ exponent`. Decimals far out of
the format's range are settled by their order of magnitude alone. -/
def ofDecimal (negative : Bool) (coefficient : Nat) (exponent : Int) : Binary64 :=
  let magnitude : Int := (Nat.toDigits 10 coefficient).length + exponent
  if coefficient == 0 || magnitude < -400 then finite negative 0 (-1074)
  else if 400 < magnitude then infinite negative
  else if 0 ≤ exponent then ofQuotient negative (coefficient * Nat.pow 10 exponent.toNat) 1
  else ofQuotient negative coefficient (Nat.pow 10 (-exponent).toNat)

def inUnitInterval : Binary64 → Bool
  | nan => false
  | infinite _ => false
  | finite negative significand exponent =>
    significand == 0 ||
      (!negative && exponent ≤ 0 && significand ≤ Nat.pow 2 (-exponent).toNat)

/-- How many zeros follow the point of a fraction below 1, as far as `fuel` goes. -/
def leadingZeros : Nat → Nat → Nat → Nat
  | 0, _, _ => 0
  | fuel + 1, num, den => if num * 10 < den then leadingZeros fuel (num * 10) den + 1 else 0

/-- The point of the grid of multiples of `10 ^ place` that stands for a number, when
one of the two neighbours of the number there reads back as it. Of two that do, the
nearer is taken, and the upper one at equal distance. -/
def gridPoint? (num low high den : Nat) (closed : Bool) (place : Int) : Option Nat :=
  let up := if place ≤ 0 then Nat.pow 10 (-place).toNat else 1
  let down := if place ≤ 0 then 1 else Nat.pow 10 place.toNat
  let point := num * up / (den * down)
  let within := fun p : Nat =>
    let q := p * den * down
    if closed then low * up ≤ q && q ≤ high * up else low * up < q && q < high * up
  match within point, within (point + 1) with
  | true, true =>
    if 2 * (num * up % (den * down)) < den * down then some point else some (point + 1)
  | true, false => some point
  | false, true => some (point + 1)
  | false, false => none

def dropZeros : Nat → Nat → Int → Nat × Int
  | 0, coefficient, exponent => (coefficient, exponent)
  | fuel + 1, coefficient, exponent =>
    if coefficient % 10 == 0 then dropZeros fuel (coefficient / 10) (exponent + 1)
    else (coefficient, exponent)

/-- The decimal with the fewest digits that reads back as a positive number, as a
coefficient and a power of ten. -/
def shortest (significand : Nat) (exponent : Int) : Nat × Int :=
  let lower := if significand == Nat.pow 2 52 && -1074 < exponent then 1 else 2
  let (num, den) := scale (4 * significand) 1 (exponent - 2)
  let (low, _) := scale (4 * significand - lower) 1 (exponent - 2)
  let (high, _) := scale (4 * significand + 2) 1 (exponent - 2)
  let magnitude : Int :=
    if den ≤ num then (Nat.toDigits 10 (num / den)).length
    else -(leadingZeros 400 num den : Int)
  let places := (List.range 17).map fun n : Nat => magnitude - 1 - (n : Int)
  let found := places.findSome? fun place =>
    (gridPoint? num low high den (significand % 2 == 0) place).map fun point => (point, place)
  match found with
  | some (point, place) => dropZeros 400 point place
  | none => (0, 0)

def positional (coefficient : Nat) (exponent : Int) : String :=
  let digits := Nat.toDigits 10 coefficient
  if 0 ≤ exponent then String.ofList (digits ++ List.replicate exponent.toNat '0')
  else
    let places := (-exponent).toNat
    let padded := List.replicate (places + 1 - digits.length) '0' ++ digits
    let whole := padded.length - places
    String.ofList (padded.take whole ++ '.' :: padded.drop whole)

def text : Binary64 → String
  | nan => "NaN"
  | infinite negative => if negative then "-inf" else "inf"
  | finite negative significand exponent =>
    let magnitude :=
      if significand == 0 then "0"
      else
        let (coefficient, place) := shortest significand exponent
        positional coefficient place
    if negative then "-" ++ magnitude else magnitude

end Binary64

end Rollup
