import Custody.Json

/-! # Numbers in JSON text

A number without point and exponent that fits 64 bits, with or without sign, is an integer. Any
other number is a double: the digits that fit 64 bits without sign are converted, then multiplied or
divided by the power of ten of the exponent. The result is the nearest double when both are exact,
and otherwise may be off in the last place. A number beyond the largest double is refused.
-/

namespace Custody.Json

/-- The parts of a number as it is written. -/
structure NumberText where
  negative : Bool
  /-- Digits before the point. -/
  whole : List Nat
  /-- Digits behind the point; `none` without a point. -/
  fraction : Option (List Nat)
  /-- Sign (whether it is negative) and digits of the exponent. -/
  exponent : Option (Bool × List Nat)

/-- A number: an integer, or a double. -/
inductive Number where
  | int (value : Int)
  | real (value : Double)
deriving DecidableEq

def ofNumber : Number → Json
  | .int value => .int value
  | .real value => .real value

/-- The significant digits of a number that fit 64 bits, and the power of ten to multiply by. -/
structure Scaled where
  significand : Nat
  exponent : Int
  /-- Whether a digit behind the point did not fit. -/
  full : Bool

namespace Scaled

/-- Takes a digit before the point. After the first that does not fit, digits only count. -/
def pushWhole (s : Scaled) (digit : Nat) : Scaled :=
  if s.exponent = 0 && 10 * s.significand + digit < UInt64.size then
    { s with significand := 10 * s.significand + digit }
  else { s with exponent := s.exponent + 1 }

/-- Takes a digit behind the point. The first that does not fit and all after it are dropped. -/
def pushFraction (s : Scaled) (digit : Nat) : Scaled :=
  if s.full then s
  else if 10 * s.significand + digit < UInt64.size then
    { s with significand := 10 * s.significand + digit, exponent := s.exponent - 1 }
  else { s with full := true }

end Scaled

/-- The largest power of ten that is a double. -/
def maxPower : Nat := 308

def tenTo (n : Nat) : Float := Float.ofScientific 1 false n

def divideByTen (f : Float) (n : Nat) : Float :=
  if maxPower < n then
    if f == 0 then f else divideByTen (f / tenTo maxPower) (n - maxPower)
  else f / tenTo n
termination_by n
decreasing_by unfold maxPower at *; omega

/-- The magnitude of scaled digits, unless it is beyond the largest double. -/
def magnitude? (significand : Nat) (exponent : Int) : Option Float :=
  let f := (UInt64.ofNat significand).toFloat
  match exponent with
  | .ofNat n =>
    if maxPower < n then if f == 0 then some f else none
    else
      let product := f * tenTo n
      if product.isInf then none else some product
  | .negSucc n => some (divideByTen f (n + 1))

def digitsValue (digits : List Nat) : Nat :=
  digits.foldl (fun n d => 10 * n + d) 0

/-- The largest exponent that is taken into account. -/
def maxExponent : Nat := 0x7FFFFFFF

/-- The magnitude of scaled digits with a written exponent. -/
def applyExponent? (s : Scaled) (exponent : Option (Bool × List Nat)) : Option Float :=
  match exponent with
  | none => magnitude? s.significand s.exponent
  | some (negative, digits) =>
    let value := digitsValue digits
    if maxExponent < value then if s.significand ≠ 0 && !negative then none else some 0
    else magnitude? s.significand (if negative then s.exponent - value else s.exponent + value)

def NumberText.number? (text : NumberText) : Option Number :=
  let whole := text.whole.foldl Scaled.pushWhole ⟨0, 0, false⟩
  let real (f : Float) := Number.real (Double.ofFloat (if text.negative then -f else f))
  if text.fraction.isNone && text.exponent.isNone && whole.exponent = 0 then
    if !text.negative then some (.int whole.significand)
    else if 0 < whole.significand && whole.significand ≤ 0x8000000000000000 then
      some (.int (-whole.significand))
    else some (real (UInt64.ofNat whole.significand).toFloat)
  else
    let scaled := (text.fraction.getD []).foldl Scaled.pushFraction whole
    (applyExponent? scaled text.exponent).map real

end Custody.Json
