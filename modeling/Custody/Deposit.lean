import Custody.Amount
import Custody.Decimal.Shortest

/-! # Deposits

An output as the chain recorded it. Nodes give amounts as doubles; such an amount counts when its
shortest decimal is an exact number of satoshi.
-/

namespace Custody

/-- An output with its place in the chain. -/
structure Deposit where
  address : String
  satoshi : UInt64
  /-- Height of the block; the largest number outside a block. -/
  height : UInt64
  time : Option UInt64
  /-- Whether the coins were mined by the transaction. -/
  coinbase : Bool
deriving DecidableEq

/-- Decimals without exponents. -/
def plainDecimals : DecimalFormat := ⟨none, none, "", .up⟩

def Amount.ofDouble? (coins : Double) : Option UInt64 :=
  if !coins.isFinite || coins.isBelowZero then none
  else (ofCoins (plainDecimals.writeDouble coins)).toOption

end Custody
