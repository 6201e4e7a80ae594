import Custody.Error
import Custody.Text.Blank

/-! # Amounts and locks

Amounts are whole numbers of satoshi below `2⁶⁴`, written in coins with at most eight decimals.
Reading one is exact: digits are taken one at a time, and a value that does not fit or has more
decimals is refused, never rounded. Relative locks are written in seconds and counted in blocks.
-/

namespace Custody.Amount

/-- Why a text is no amount. -/
inductive Fault where
  | empty
  | tooLong
  | negative
  | badCharacter (c : Char)
  | tooPrecise
  | tooLarge
deriving DecidableEq

def Fault.message : Fault → String
  | .empty => "no digits"
  | .tooLong => "the text is too long"
  | .negative => "amounts are not negative"
  | .badCharacter c => "unexpected character " ++ String.singleton c
  | .tooPrecise => "more than eight decimals"
  | .tooLarge => "the amount is too large"

def decimals : Nat := 8

/-- The first number that is no amount. -/
def bound : Nat := UInt64.size

/-- Appends a digit to a number, if the result is below the bound. -/
def push? (value digit : Nat) : Option Nat :=
  let next := 10 * value + digit
  if next < bound then some next else none

/-- Multiplies by a power of ten, if the result is below the bound. -/
def scale? : Nat → Nat → Option Nat
  | 0, value => some value
  | n + 1, value => (push? value 0).bind (scale? n)

/-- Reads the rest of an amount after the digits of `value`, of which `places` follow the point
(`none` before the point). -/
def readDigits (value : Nat) (places : Option Nat) : List Char → Except Fault Nat
  | [] =>
    match scale? (decimals - places.getD 0) value with
    | some total => .ok total
    | none => .error .tooLarge
  | c :: rest =>
    if c.isDigit then
      match push? value (c.toNat - 48) with
      | none => .error .tooLarge
      | some next =>
        match places with
        | none => readDigits next none rest
        | some n => if n < decimals then readDigits next (some (n + 1)) rest else .error .tooPrecise
    else if c = '.' && places.isNone then readDigits value (some 0) rest
    else .error (.badCharacter c)

/-- Reads an amount in coins, as a number of satoshi. -/
def ofCoins (text : String) : Except Fault UInt64 :=
  if text.isEmpty then .error .empty
  else if text.utf8ByteSize > 50 then .error .tooLong
  else if text.toList.head? = some '-' then .error .negative
  else (readDigits 0 none text.toList).map UInt64.ofNat

/-- Reads an amount in coins that blanks may surround. -/
def parse (text : String) : Except Error UInt64 :=
  match ofCoins (Blank.trim text) with
  | .ok satoshi => .ok satoshi
  | .error fault => .error (.invalidInput s!"invalid amount {text}: {fault.message}")

end Custody.Amount

namespace Custody.Lock

def minSeconds : Nat := 3600

def maxSeconds : Nat := 31536000

/-- The most blocks a relative lock can count. -/
def maxBlocks : Nat := 0xffff

/-- The number of blocks of a lock of some seconds and nanoseconds. -/
def blocks (seconds : UInt64) (nanos : Nat) (network : Network) : Except Error UInt32 :=
  let time := 1000000000 * seconds.toNat + nanos
  let whole := time / 1000000000
  if time < 1000000000 * minSeconds || 1000000000 * maxSeconds < time then
    .error (.invalidInput
      s!"invalid lock {whole}s, expected between {minSeconds}s and {maxSeconds}s")
  else
    .ok (UInt32.ofNat (min (whole / network.params.blockSeconds.toNat) maxBlocks))

end Custody.Lock

namespace Custody

/-- Whether an output can be relied on: one confirmation is enough, except for mined coins, which
need the maturity of the network. -/
def isFinal (confirmations : UInt64) (coinbase : Bool) : Bool :=
  Network.bitcoin.params.coinbaseMaturity ≤ confirmations || (!coinbase && 1 ≤ confirmations)

end Custody
