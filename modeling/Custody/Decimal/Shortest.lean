/-! # Shortest decimals of doubles

A finite double is a mantissa times a power of two. The reals that round to it form an interval,
whose ends belong to it when the mantissa is even. The shortest decimal is the one with the fewest
digits in that interval, and of those the nearest to the double. Of two that are equally near, a
format takes the one with an even last digit or the larger one.
-/

namespace Custody

/-- A binary floating-point number of 64 bits. -/
structure Double where
  bits : UInt64
deriving DecidableEq, Repr

namespace Double

def ofFloat (f : Float) : Double := ⟨f.toBits⟩

def toFloat (d : Double) : Float := Float.ofBits d.bits

/-- What the bit above those of the mantissa counts: `2 ^ 52`. -/
def hiddenBit : Nat := 0x10000000000000

/-- The double nearest to a number below `2 ^ 64`; of two equally near, the one with an even
mantissa. A mantissa that is rounded up to the next power of two carries into the exponent. -/
def ofNat (n : Nat) : Double :=
  if n = 0 then ⟨0⟩
  else
    let exponent := Nat.log2 n
    let scaled := n * hiddenBit
    let unit := 1 <<< exponent
    let below := scaled / unit
    let above := unit < 2 * (scaled % unit) || (unit = 2 * (scaled % unit) && below % 2 = 1)
    ⟨UInt64.ofNat ((1022 + exponent) * hiddenBit + if above then below + 1 else below)⟩

def neg (d : Double) : Double := ⟨d.bits ^^^ 0x8000000000000000⟩

def isNegative (d : Double) : Bool := 0x8000000000000000 ≤ d.bits.toNat

/-- The bits of the mantissa. -/
def fraction (d : Double) : Nat := d.bits.toNat % hiddenBit

def exponentField (d : Double) : Nat := d.bits.toNat / hiddenBit % 2048

def isFinite (d : Double) : Bool := d.exponentField ≠ 2047

/-- Mantissa and exponent of the magnitude, `mantissa · 2 ^ exponent`. -/
def parts (d : Double) : Nat × Int :=
  if d.exponentField = 0 then (d.fraction, -1074)
  else (hiddenBit + d.fraction, (d.exponentField : Int) - 1075)

/-- Whether a finite number is less than zero, which a zero with a sign is not. -/
def isBelowZero (d : Double) : Bool := d.isNegative && d.parts.1 ≠ 0

end Double

/-- A decimal `digits · 10 ^ exponent`. -/
structure Decimal where
  digits : Nat
  exponent : Int
deriving DecidableEq, Repr

/-- Which of two decimals is taken that are equally near to a double. -/
inductive Tie where
  /-- The one with an even last digit. -/
  | toEven
  /-- The one of larger magnitude. -/
  | up
deriving DecidableEq, Repr

/-- Whether the lower of two equally near decimals is taken, by its digits. -/
def Tie.takesLower (tie : Tie) (digits : Nat) : Bool :=
  match tie with
  | .toEven => digits % 2 = 0
  | .up => false

namespace Decimal

/-- The interval of reals that round to a double, and the double itself, in quarters of the unit of
its last place. -/
structure Interval where
  low : Nat
  value : Nat
  high : Nat
  /-- Whether the ends belong to the interval. -/
  closed : Bool

/-- The interval of a mantissa. Below a power of two the doubles lie twice as close. -/
def interval (mantissa : Nat) (exponent : Int) : Interval where
  low :=
    if mantissa = Double.hiddenBit && exponent ≠ -1074 then 4 * mantissa - 1
    else 4 * mantissa - 2
  value := 4 * mantissa
  high := 4 * mantissa + 2
  closed := mantissa % 2 = 0

/-- Whether a multiple of the grid lies in the interval, where `grid` and `unit` are the steps of
the grid and of the interval in a common unit. -/
def Interval.holds (i : Interval) (grid unit candidate : Nat) : Bool :=
  let x := candidate * grid
  (i.low * unit < x && x < i.high * unit) || (i.closed && (i.low * unit = x || x = i.high * unit))

/-- Of the two grid points around the value, the nearest that lies in the interval. -/
def Interval.nearest? (i : Interval) (tie : Tie) (grid unit : Nat) : Option Nat :=
  let below := i.value * unit / grid
  let above := below + 1
  match i.holds grid unit below, i.holds grid unit above with
  | false, false => none
  | true, false => some below
  | false, true => some above
  | true, true =>
    let down := i.value * unit - below * grid
    let up := above * grid - i.value * unit
    some (if down < up || (down = up && tie.takesLower below) then below else above)

/-- The first decimal in the interval on grids of finer and finer steps, from `10 ^ exponent` on. -/
def search (i : Interval) (tie : Tie) (quarter : Int) : Nat → Int → Decimal
  | 0, exponent => ⟨0, exponent⟩
  | steps + 1, exponent =>
    let grid := Nat.pow 10 exponent.toNat * Nat.pow 2 (-quarter).toNat
    let unit := Nat.pow 2 quarter.toNat * Nat.pow 10 (-exponent).toNat
    match i.nearest? tie grid unit with
    | some digits => ⟨digits, exponent⟩
    | none => search i tie quarter steps (exponent - 1)

/-- The shortest decimal of the magnitude of a finite double other than zero. Its digits number at
most 17, and the search starts at most three places above them. -/
def shortest (tie : Tie) (d : Double) : Decimal :=
  let (mantissa, exponent) := d.parts
  let start := ((Nat.log2 mantissa : Int) + exponent) * 30103 / 100000 + 2
  search (interval mantissa exponent) tie (exponent - 2) 24 start

end Decimal

/-- How doubles are written: for which positions of the point no exponent is used, what follows a
whole number, and which of two nearest decimals is taken. The position of the point counts digits
from the first one. -/
structure DecimalFormat where
  /-- Below this position of the point an exponent is used. -/
  least : Option Int
  /-- Above this position of the point an exponent is used. -/
  greatest : Option Int
  /-- What follows a whole number. -/
  whole : String
  tie : Tie

namespace DecimalFormat

def isPlain (format : DecimalFormat) (point : Int) : Bool :=
  format.least.all (· ≤ point) && format.greatest.all (point ≤ ·)

/-- Writes a decimal. An exponent has a sign. -/
def write (format : DecimalFormat) (decimal : Decimal) : String :=
  let digits := (Nat.repr decimal.digits).toList
  let zeros (n : Int) := List.replicate n.toNat '0'
  let point := digits.length + decimal.exponent
  if format.isPlain point then
    if 0 ≤ decimal.exponent then
      String.ofList (digits ++ zeros decimal.exponent) ++ format.whole
    else if 0 < point then
      String.ofList (digits.take point.toNat ++ '.' :: digits.drop point.toNat)
    else String.ofList ('0' :: '.' :: zeros (-point) ++ digits)
  else
    let tail := digits.drop 1
    let sign := if point < 1 then "-" else "+"
    String.ofList (digits.take 1 ++ (if tail.isEmpty then [] else '.' :: tail))
      ++ "e" ++ sign ++ toString (point - 1).natAbs

def writeDouble (format : DecimalFormat) (d : Double) : String :=
  let magnitude :=
    if d.parts.1 = 0 then "0" ++ format.whole else format.write (Decimal.shortest format.tie d)
  if d.isNegative then "-" ++ magnitude else magnitude

end DecimalFormat

end Custody
