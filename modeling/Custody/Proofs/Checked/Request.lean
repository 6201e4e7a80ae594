import Custody.Proofs.Checked.Policy
import Custody.Proofs.Request

/-! # Requests are estimated and built without accesses out of range

Change is subtracted once the outputs are known not to exceed the coins. The fields of the inputs
are written in three lists side by side, of input maps, coins and ways to spend them, which are of
one length because the transaction has an input for each coin.
-/

namespace Custody.Request

open Assembly

/-- What is left of a total after some outputs, which must not exceed it. -/
def changeChecked (total outputs : UInt64) : Checked Error UInt64 :=
  if total < outputs then throw (.insufficientMain total outputs)
  else Checked.remainder total outputs

theorem changeChecked_eq (total outputs : UInt64) :
    changeChecked total outputs = .total (change total outputs) := by
  unfold changeChecked change
  split
  · rfl
  · rename_i covered
    exact Checked.remainder_of_le (UInt64.not_lt.mp covered)

section Estimate

/-- Assembles the transaction whose fee is estimated. -/
def assembleEstimateChecked (request : Request) (feeCoins : List Coin) :
    CheckedOn Error Transaction UInt64 := do
  Checked.on (Checked.total request.checkPayload)
  let main ← Checked.totalOn (addInputs request.coins request.network)
  let fee ← Checked.totalOn (addInputs feeCoins request.network)
  let outputs ← Checked.totalOn (addOutputs request.payments request.network)
  let rest ← Checked.on (changeChecked main.total outputs)
  if 0 < rest then Checked.totalOn (addChange main rest request.network)
  return fee.total

/-- Estimates the fee at a rate and checks that the coins for the fee can pay it. -/
def estimateFeeChecked (request : Request) (feeCoins : List Coin) (rate : UInt64) :
    Checked Error Fee.Estimate := do
  let (available, tx) ←
    Checked.access (Checked.outcomeOn? (assembleEstimateChecked request feeCoins) Transaction.blank)
  let available ← Checked.total available
  let size := Fee.virtualSize tx.inputs.length tx.outputs.length request.payload.length
  let fee := Fee.fee size rate
  if available < fee then throw (.insufficientFee fee available)
  return ⟨size, fee, available⟩

theorem assembleEstimateChecked_eq (request : Request) (feeCoins : List Coin) :
    assembleEstimateChecked request feeCoins =
      Checked.totalOn (assembleEstimate request feeCoins) := by
  refine Checked.bind_eq_totalOn (Checked.on_eq_totalOn rfl) fun _ => ?_
  refine Checked.bind_eq_totalOn rfl fun main => ?_
  refine Checked.bind_eq_totalOn rfl fun fee => ?_
  refine Checked.bind_eq_totalOn rfl fun outputs => ?_
  refine Checked.bind_eq_totalOn (Checked.on_eq_totalOn (changeChecked_eq ..)) fun rest => ?_
  exact Checked.ite_eq_totalOn (Checked.bind_eq_totalOn rfl fun _ => rfl) rfl

/-- Whatever is requested, estimating the fee makes no access out of range. -/
theorem estimateFeeChecked_eq (request : Request) (feeCoins : List Coin) (rate : UInt64) :
    estimateFeeChecked request feeCoins rate = .total (estimateFee request feeCoins rate) := by
  rw [estimateFeeChecked, assembleEstimateChecked_eq, Checked.outcomeOn?_totalOn,
    Checked.access_some, pure_bind]
  refine Checked.bind_eq_total rfl fun available _ => ?_
  exact Checked.ite_eq_total rfl rfl

end Estimate

section Build

variable {tx : Transaction} {coins : List Coin} {main : Group}

/-- Assembles the transaction to build, up to the payload. -/
def assembleChecked (request : Request) : CheckedOn Error Transaction Group := do
  Checked.on (Checked.total request.checkPayload)
  let main ← Checked.totalOn (addInputs request.coins request.network)
  let outputs ← Checked.totalOn (addOutputs request.payments request.network)
  let rest ← Checked.on (changeChecked main.total outputs)
  if request.network.params.dustThreshold < rest then
    Checked.totalOn (addChange main rest request.network)
  return main

/-- The packet of a transaction, whose input maps must stand side by side with the coins and with
the ways to spend them. -/
def packetOfChecked (tx : Transaction) (coins : List Coin) (main : Group) :
    Checked Error Packet := do
  match main.origin with
  | none => throw (.build "no main inputs")
  | some (_, lock) =>
    let packet ← Checked.total ((Packet.new tx).mapError Packet.Fault.toError)
    let mapped ← Checked.aligned packet.inputs coins
    let spent ← Checked.aligned mapped main.spends
    let packet :=
      { packet with inputs := spent.map fun ((_, coin), spend) => fieldsOf lock coin spend }
    Checked.total (packet.checkSanity.mapError Packet.Fault.toError)
    return packet

/-- Builds the packet of a request. -/
def buildChecked (request : Request) (clock : UInt64) : Checked Error Packet := do
  let (main, tx) ←
    Checked.access (Checked.outcomeOn? (assembleChecked request) Transaction.blank)
  let main ← Checked.total main
  let estimate :=
    Fee.virtualSize tx.inputs.length tx.outputs.length request.payload.length
  let tx := { tx with outputs := tx.outputs ++ payloadOutputs request.payload }
  Checked.total (checkSize tx estimate)
  Sanity.checkChecked tx
  Relay.checkChecked tx Relay.lockTimeThreshold (clock + UInt64.ofNat Lock.maxSeconds)
  packetOfChecked tx request.coins main

theorem assembleChecked_eq (request : Request) :
    assembleChecked request = Checked.totalOn (assemble request) := by
  refine Checked.bind_eq_totalOn (Checked.on_eq_totalOn rfl) fun _ => ?_
  refine Checked.bind_eq_totalOn rfl fun main => ?_
  refine Checked.bind_eq_totalOn rfl fun outputs => ?_
  refine Checked.bind_eq_totalOn (Checked.on_eq_totalOn (changeChecked_eq ..)) fun rest => ?_
  exact Checked.ite_eq_totalOn (Checked.bind_eq_totalOn rfl fun _ => rfl) rfl

/-- A new packet has a map for each input of its transaction. -/
theorem length_inputs_of_new {packet : Packet} (made : Packet.new tx = .ok packet) :
    packet.inputs.length = tx.inputs.length := by
  obtain ⟨_, fresh⟩ := Except.seq_eq_ok_iff.mp made
  obtain rfl := Except.ok.inj fresh
  exact List.length_map _

/-- The fields of an input do not depend on the map that they replace. -/
theorem map_fieldsOf_zip (lock : Script) {maps : List InputFields} (spends : List Spend)
    (mapped : maps.length = coins.length) :
    ((maps.zip coins).zip spends).map (fun ((_, coin), spend) => fieldsOf lock coin spend) =
      List.zipWith (fieldsOf lock) coins spends := by
  have behind : (maps.zip coins).map Prod.snd = coins :=
    List.map_snd_zip (Nat.le_of_eq mapped.symm)
  conv_rhs => rw [← behind]
  rw [List.zipWith_map_left, List.map_zip_eq_zipWith]
  rfl

theorem packetOfChecked_eq (inputs : tx.inputs.length = coins.length)
    (spends : main.spends.length = coins.length) :
    packetOfChecked tx coins main = .total (packetOf tx coins main) := by
  unfold packetOfChecked packetOf
  cases main.origin with
  | none => rfl
  | some origin =>
    obtain ⟨address, lock⟩ := origin
    refine Checked.bind_eq_total rfl fun packet made => ?_
    have mapped : packet.inputs.length = coins.length :=
      (length_inputs_of_new (Except.mapError_eq_ok_iff.mp made)).trans inputs
    have spent : (packet.inputs.zip coins).length = main.spends.length := by
      rw [List.length_zip, mapped, Nat.min_self, spends]
    rw [Checked.aligned_of_length mapped, pure_bind, Checked.aligned_of_length spent, pure_bind,
      map_fieldsOf_zip lock main.spends mapped]
    exact Checked.bind_eq_total rfl fun _ _ => rfl

/-- With a coin too few or too many, the input maps would not stand side by side with the coins. -/
theorem packetOfChecked_apart {origin : String × Script} {packet : Packet}
    (spent : main.origin = some origin) (made : Packet.new tx = .ok packet)
    (apart : tx.inputs.length ≠ coins.length) :
    (packetOfChecked tx coins main).outcome? = none := by
  have unaligned : packet.inputs.length ≠ coins.length :=
    fun mapped => apart ((length_inputs_of_new made).symm.trans mapped)
  have fresh : Checked.total ((Packet.new tx).mapError Packet.Fault.toError) = pure packet := by
    rw [made]
    rfl
  simp only [packetOfChecked, spent, fresh, pure_bind, Checked.aligned, if_neg unaligned]
  rfl

/-- Whatever is requested, building the packet makes no access out of range. -/
theorem buildChecked_eq (request : Request) (clock : UInt64) :
    buildChecked request clock = .total (build request clock) := by
  rw [buildChecked, assembleChecked_eq, Checked.outcomeOn?_totalOn, Checked.access_some, pure_bind]
  refine Checked.bind_eq_total rfl fun main assembled => ?_
  refine Checked.bind_eq_total rfl fun _ _ => ?_
  refine Checked.bind_eq_total (Sanity.checkChecked_eq _) fun _ _ => ?_
  refine Checked.bind_eq_total (Relay.checkChecked_eq ..) fun _ _ => ?_
  -- What was assembled has an input and a way to spend it for each coin.
  obtain ⟨_, rfl, left⟩ := assemble_eq_ok_iff.mp (Prod.ext assembled rfl)
  refine packetOfChecked_eq ?_ ?_
  · exact (congrArg (·.inputs.length) left).trans (List.length_map _)
  · simp [Group.join]

end Build

end Custody.Request
