import Custody.Error

/-! # Fee estimates

The size of a transaction is estimated from the number of its inputs and outputs, every input as a
multisig spend, with one spare output. The fee is the rate times that size, or the largest amount
if the product exceeds it.
-/

namespace Custody.Fee

/-- Weight of a transaction without inputs and outputs. -/
def baseWeight : Nat := 40

def inputWeight : Nat := 300

def outputWeight : Nat := 128

/-- The largest estimated weight of a transaction. -/
def maxWeight : Nat := 300000

def maxPayload : Nat := 64

/-- The estimated virtual size. A payload above the limit is not counted. -/
def virtualSize (inputs outputs payload : Nat) : Nat :=
  (baseWeight + inputs * inputWeight + (outputs + 1) * outputWeight) / 4
    + if payload ≤ maxPayload then payload else 0

/-- The fee at a rate per virtual byte. -/
def fee (virtualSize : Nat) (rate : UInt64) : UInt64 :=
  UInt64.ofNat (min (rate.toNat * virtualSize) 0xFFFFFFFFFFFFFFFF)

/-- A fee that the inputs meant for it can pay. -/
structure Estimate where
  virtualSize : Nat
  fee : UInt64
  available : UInt64
deriving DecidableEq

end Custody.Fee
