import Custody.Coin

/-! # Assembling transactions

Coins and payments are appended to a transaction one at a time. An assembly step is a function of
the transaction so far; when it fails, what earlier steps appended stays.
-/

namespace Custody

/-- A step of assembly: it may fail, and leaves a transaction in either case. -/
abbrev Assembly (α : Type) := ExceptT Error (StateM Transaction) α

namespace Assembly

/-- The result of an assembly and the transaction it leaves. -/
def runFrom {α : Type} (assembly : Assembly α) (tx : Transaction) :
    Except Error α × Transaction :=
  assembly.run.run tx

/-- Coins that were added and are all spent in one way. -/
structure Group where
  /-- Address and locking script of all the coins; `none` without coins. -/
  origin : Option (String × Script) := none
  /-- Sum of the coins' amounts. -/
  total : UInt64 := 0
  /-- How each coin is spent, in order. -/
  spends : List Spend := []
deriving DecidableEq

/-- The sum of two amounts, or a failure if it is no amount. -/
def addAmounts (what : String) (a b : UInt64) : Except Error UInt64 :=
  if a.toNat + b.toNat < UInt64.size then .ok (a + b)
  else .error (.invalidInput s!"{what} total overflows")

def addInput (coin : Coin) (network : Network) : Assembly Spend := do
  if coin.satoshi = 0 then
    throw (.invalidInput s!"input {coin.transactionHash}:{coin.index.toNat} has zero value")
  match Txid.ofDisplay? coin.transactionHash with
  | none =>
    throw (.invalidInput
      s!"invalid transaction hash {coin.transactionHash}: expected 64 hexadecimal digits")
  | some txid =>
    let spend ← (Spend.derive coin.script coin.routeBackup coin.sequence network : Except _ _)
    modify fun tx =>
      { tx with
        inputs := tx.inputs ++ [{ previous := ⟨txid, coin.index⟩, sequence := spend.sequence }] }
    return spend

/-- Takes a coin that was appended into a group. -/
def Group.take (group : Group) (coin : Coin) (spend : Spend) : Except Error Group := do
  let origin ←
    match group.origin with
    | none => pure (spend.address, spend.lock)
    | some origin =>
      if origin.1 ≠ spend.address then throw (.mixedInputAddress origin.1 spend.address)
      pure origin
  let total ← addAmounts "input" group.total coin.satoshi
  return { origin := some origin, total, spends := group.spends ++ [spend] }

/-- Appends coins that are all spent from one address. -/
def addInputs (coins : List Coin) (network : Network) : Assembly Group :=
  coins.foldlM (fun group coin => do
    let spend ← addInput coin network
    (group.take coin spend : Except _ _)) {}

def addOutput (payment : Payment) (network : Network) : Assembly Unit := do
  let script ← (Address.toScript payment.address network : Except _ _)
  modify fun tx => { tx with outputs := tx.outputs ++ [⟨payment.satoshi, script⟩] }

/-- Appends payments and returns the sum of their amounts. -/
def addOutputs (payments : List Payment) (network : Network) : Assembly UInt64 :=
  payments.foldlM (fun total payment => do
    addOutput payment network
    (addAmounts "output" total payment.satoshi : Except _ _)) 0

def addChange (group : Group) (change : UInt64) (network : Network) : Assembly Unit :=
  match group.origin with
  | some (address, _) => addOutput ⟨address, change⟩ network
  | none => throw (.build "change without inputs")

end Assembly

end Custody
