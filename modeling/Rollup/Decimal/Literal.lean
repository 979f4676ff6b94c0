import Rollup.Decimal.Binary64
import Rollup.Text.Integer

namespace Rollup.Decimal

inductive LiteralFault where
  | empty
  | invalid
  deriving DecidableEq, Repr

namespace LiteralFault

def message : LiteralFault → String
  | empty => "cannot parse float from empty string"
  | invalid => "invalid float literal"

end LiteralFault

/-- The number that a row of digits writes after the digits of `n`. -/
def appendDigits (n : Nat) (digits : List Char) : Nat :=
  digits.foldl (fun n c => n * 10 + (c.toNat - '0'.toNat)) n

/-- The number that the digits of an exponent write. Once it has passed 65535 the
literal is far out of range, and further digits are dropped. -/
def exponentMagnitude (digits : List Char) : Nat :=
  digits.foldl (fun n c => if n < 65536 then n * 10 + (c.toNat - '0'.toNat) else n) 0

def isDigit (c : Char) : Bool := (Text.digitValue? c).isSome

def readExponent : List Char → Option Int
  | [] => some 0
  | e :: rest =>
    if e == 'e' || e == 'E' then
      let (negative, digits) := match rest with
        | '-' :: digits => (true, digits)
        | '+' :: digits => (false, digits)
        | digits => (false, digits)
      if digits.isEmpty || !digits.all isDigit then none
      else
        let magnitude := exponentMagnitude digits
        some (if negative then -(magnitude : Int) else magnitude)
    else none

/-- Digits with a point: the coefficient without the point and the power of ten that
the places after the point call for. -/
def readNumber (cs : List Char) : Option (Nat × Int) :=
  let whole := cs.takeWhile isDigit
  let afterWhole := cs.dropWhile isDigit
  let (places, rest) := match afterWhole with
    | '.' :: afterPoint => (afterPoint.takeWhile isDigit, afterPoint.dropWhile isDigit)
    | rest => ([], rest)
  if whole.isEmpty && places.isEmpty then none
  else
    (readExponent rest).map fun exponent =>
      (appendDigits (appendDigits 0 whole) places, exponent - places.length)

def readMagnitude (negative : Bool) (cs : List Char) : Except LiteralFault Binary64 :=
  match readNumber cs with
  | some (coefficient, exponent) => .ok (.ofDecimal negative coefficient exponent)
  | none =>
    let word := String.ofList (cs.map Char.toLower)
    if word == "inf" || word == "infinity" then .ok (.infinite negative)
    else if word == "nan" then .ok .nan
    else .error .invalid

def read (s : String) : Except LiteralFault Binary64 :=
  match s.toList with
  | [] => .error .empty
  | '-' :: cs => readMagnitude true cs
  | '+' :: cs => readMagnitude false cs
  | cs => readMagnitude false cs

end Rollup.Decimal
