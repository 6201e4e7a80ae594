import Custody.Proofs.Request

/-! # Built packets keep value and shape

Nothing is lost between a request and the packet that it is built into: the transaction spends the
coins and makes the payments in their order, every input carries the amount and the script of its
own coin, and what the outputs do not pay is a fee of at most the network's dust threshold.
-/

namespace Custody.Request

/-- The output that an input of the transaction spends is the coin of its position. -/
def Spends (coin : Coin) (input : TxIn) : Prop :=
  Txid.ofDisplay? coin.transactionHash = some input.previous.txid ∧
    input.previous.vout = coin.index ∧ input.signatureScript = [] ∧ input.witness = [] ∧
    input.sequence = if coin.routeBackup then coin.sequence else 0xFFFFFFFF

/-- An output pays the amount of a payment to the script of its address. -/
def Pays (network : Network) (payment : Payment) (output : TxOut) : Prop :=
  output.value = payment.satoshi ∧ Address.toScript payment.address network = .ok output.script

variable {request : Request} {packet : Packet} {clock : UInt64}

private theorem spends_input {coin : Coin} (spendable : coin.Spendable) :
    Spends coin coin.input := by
  obtain ⟨txid, named⟩ := Txid.exists_ofDisplay?_iff.mpr spendable.named
  refine ⟨?_, rfl, rfl, rfl, rfl⟩
  rw [Coin.input, Coin.outPoint, Coin.txid, named]
  rfl

private theorem forall₂_map_of_forall_mem {α β : Type} {related : α → β → Prop} {image : α → β}
    {items : List α} (all : ∀ item ∈ items, related item (image item)) :
    List.Forall₂ related items (items.map image) :=
  List.forall₂_map_right_iff.mpr (List.forall₂_same.mpr all)

private theorem mapM_witnessUtxo (coins : List Coin) (network : Network) :
    (coins.map fun coin => fieldsOf coin.lock coin (coin.spend network)).mapM
        InputFields.witnessUtxo =
      some (coins.map fun coin => ⟨coin.satoshi, coin.lock⟩) := by
  induction coins with
  | nil => rfl
  | cons coin coins ih =>
    rw [List.map_cons, List.mapM_cons, ih]
    rfl

/-- What the inputs of the packet spend is the sum of the coins. -/
theorem inputTotal?_packet (request : Request) :
    request.packet.inputTotal? = some request.inputTotal := by
  rw [Packet.inputTotal?, packet, mapM_witnessUtxo, Option.map_some,
    foldr_add_eq_sum fun utxo : TxOut => utxo.value.toNat, List.map_map]
  rfl

theorem outputTotal_packet (admissible : request.Admissible) :
    request.packet.outputTotal = request.outputTotal + request.paidChange :=
  (foldr_add_eq_sum (fun output : TxOut => output.value.toNat) _).trans
    (total_outputs admissible.spends admissible.inputTotal)

theorem paid_le_inputTotal (admissible : request.Admissible) :
    request.outputTotal + request.paidChange ≤ request.inputTotal := by
  have covered := admissible.covered
  by_cases paid : 0 < request.paidChange
  · rw [paidChange_eq paid]
    omega
  · omega

/-- What is not paid back is dust. -/
theorem unpaid_le_dustThreshold (request : Request) :
    request.inputTotal - (request.outputTotal + request.paidChange) ≤
      request.network.params.dustThreshold.toNat := by
  by_cases paid : 0 < request.paidChange
  · rw [paidChange_eq paid]
    omega
  · have within := mt paidChange_pos_iff.mpr paid
    omega

/-- The fee of the packet is what its outputs leave of the coins. -/
theorem fee?_packet (admissible : request.Admissible) :
    request.packet.fee? =
      some (UInt64.ofNat (request.inputTotal - (request.outputTotal + request.paidChange))) := by
  have fits : request.inputTotal < UInt64.size := admissible.inputTotal
  have paid := paid_le_inputTotal admissible
  simp only [Packet.fee?, inputTotal?_packet, outputTotal_packet admissible, fits, paid,
    decide_true, Bool.and_self, ↓reduceIte]

/-- All coins of a request that is built are locked by one script. -/
theorem exists_common_lock (admissible : request.Admissible) :
    ∃ lock, ∀ coin ∈ request.coins, coin.lock = lock := by
  obtain ⟨first, coins, same⟩ := List.exists_cons_of_ne_nil admissible.spends
  exact ⟨first.lock, admissible.assembles.lock_eq (by rw [same]; rfl)⟩

/-- The outputs of the packet are those of the payments, change to the script of the coins, and that
of the payload. -/
private theorem outputs_packet (admissible : request.Admissible) {lock : Script}
    (common : ∀ coin ∈ request.coins, coin.lock = lock) :
    request.packet.unsignedTx.outputs = request.payments.map (·.output request.network) ++
      (if request.network.params.dustThreshold.toNat < request.inputTotal - request.outputTotal
        then [⟨UInt64.ofNat (request.inputTotal - request.outputTotal), lock⟩] else []) ++
      (if request.payload = [] then []
        else [⟨0, 0x6a :: UInt8.ofNat request.payload.length :: request.payload⟩]) := by
  obtain ⟨first, coins, same⟩ := List.exists_cons_of_ne_nil admissible.spends
  have head : first.lock = lock := common first (by rw [same]; exact List.mem_cons_self)
  have change : request.changeOutputs =
      if request.network.params.dustThreshold.toNat < request.inputTotal - request.outputTotal
        then [⟨UInt64.ofNat (request.inputTotal - request.outputTotal), lock⟩] else [] := by
    rw [changeOutputs_of_coins same, head]
    split
    · rename_i paid
      rw [if_pos (paidChange_pos_iff.mp paid), paidChange_eq paid]
    · rename_i unpaid
      rw [if_neg (mt paidChange_pos_iff.mpr unpaid)]
  have payload : payloadOutputs request.payload = if request.payload = [] then []
      else [⟨0, 0x6a :: UInt8.ofNat request.payload.length :: request.payload⟩] := by
    simp only [payloadOutputs, List.isEmpty_iff]
    rfl
  rw [← change, ← payload]
  rfl

/-- A built packet spends the coins in order, each with its own sequence; its outputs are the
payments, change above the dust threshold and the payload; every input says what its own coin is
worth and how it is locked; and the fee is what is left, at most the dust threshold. -/
theorem build_conserves (built : request.build clock = .ok packet) :
    packet.unsignedTx.version = 2 ∧ packet.unsignedTx.lockTime = 0 ∧
    List.Forall₂ Spends request.coins packet.unsignedTx.inputs ∧
    (∃ requested lock,
      List.Forall₂ (Pays request.network) request.payments requested ∧
      (∀ coin ∈ request.coins, coin.lock = lock) ∧
      packet.unsignedTx.outputs = requested ++
        (if request.network.params.dustThreshold.toNat < request.inputTotal - request.outputTotal
          then [⟨UInt64.ofNat (request.inputTotal - request.outputTotal), lock⟩] else []) ++
        (if request.payload = [] then []
          else [⟨0, 0x6a :: UInt8.ofNat request.payload.length :: request.payload⟩]) ∧
      request.payload.length < 0x4c) ∧
    List.Forall₂ (fun coin fields => fields.witnessUtxo = some ⟨coin.satoshi,
        if coin.script.length = 33 then 0x00 :: 0x14 :: Ripemd160.hash160 coin.script
        else 0x00 :: 0x20 :: Sha256.hash coin.script⟩) request.coins packet.inputs ∧
    ∃ fee, packet.fee? = some fee ∧
      fee.toNat + TxOut.total packet.unsignedTx.outputs = Coin.total request.coins ∧
      fee ≤ request.network.params.dustThreshold := by
  obtain ⟨admissible, rfl⟩ := build_eq_ok_iff.mp built
  obtain ⟨lock, common⟩ := exists_common_lock admissible
  have paid := paid_le_inputTotal admissible
  have fits : request.inputTotal - (request.outputTotal + request.paidChange) < 2 ^ 64 :=
    Nat.lt_of_le_of_lt (Nat.sub_le _ _) admissible.inputTotal
  have payload := admissible.payload
  refine ⟨rfl, rfl, ?_, ⟨request.payments.map (·.output request.network), lock, ?_, common,
    outputs_packet admissible common, by omega⟩, ?_, _, fee?_packet admissible, ?_, ?_⟩
  · exact forall₂_map_of_forall_mem fun coin member => spends_input (admissible.coins coin member)
  · exact forall₂_map_of_forall_mem fun payment member =>
      ⟨rfl, (admissible.payable payment member).toScript⟩
  · exact forall₂_map_of_forall_mem fun coin _ => rfl
  · rw [UInt64.toNat_ofNat_of_lt' fits]
    have total : TxOut.total request.packet.unsignedTx.outputs =
        request.outputTotal + request.paidChange :=
      total_outputs admissible.spends admissible.inputTotal
    rw [total]
    exact Nat.sub_add_cancel paid
  · rw [UInt64.le_iff_toNat_le, UInt64.toNat_ofNat_of_lt' fits]
    exact request.unpaid_le_dustThreshold

/-- Of two coins of 60000 and 40000, the settlement pays 10000 and returns the rest, and publishes
its payload. -/
theorem build_conserves_settlement :
    settlement.build 1700000000 = .ok settlement.packet ∧
      settlement.packet.unsignedTx.version = 2 ∧
      List.Forall₂ Spends [accountCoin, backupCoin] settlement.packet.unsignedTx.inputs ∧
      settlement.packet.unsignedTx.outputs = [⟨10000, generatorCoin.lock⟩,
        ⟨90000, accountCoin.lock⟩, ⟨0, [0x6a, 0x02, 0x50, 0xff]⟩] ∧
      ∃ fee, settlement.packet.fee? = some fee ∧ fee.toNat + 100000 = 100000 := by
  have built := build_settlement 1700000000
  obtain ⟨version, _, spends, ⟨requested, lock, pays, common, outputs, _⟩, _, fee, known, left, _⟩ :=
    build_conserves built
  obtain rfl := common accountCoin List.mem_cons_self
  have paid : requested = [⟨10000, generatorCoin.lock⟩] := by
    obtain ⟨⟨value, script⟩, _, ⟨rfl, payable⟩, rest, rfl⟩ := List.forall₂_cons_left_iff.mp pays
    obtain rfl := List.forall₂_nil_left_iff.mp rest
    have locked := payable.symm.trans (generatorCoin.toScript_address .bitcoin)
    rw [← Except.ok.inj locked]
  subst paid
  rw [outputs] at left
  exact ⟨built, version, spends, outputs, fee, known, left⟩

end Custody.Request
