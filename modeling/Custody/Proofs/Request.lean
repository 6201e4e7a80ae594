import Custody.Proofs.Assembly
import Custody.Proofs.Packet.RoundTrip
import Custody.Proofs.Policy.Relay
import Custody.Proofs.Policy.Sanity
import Custody.Request

/-! # Requests that are built

What a request is built into is known from the request alone, and a request is built exactly when
it is admissible. The checks of sanity and relay policy that come last add little to that: what the
assembly appends by itself, change and the payload, never fails them.
-/

namespace Custody.Request

open Assembly

/-- The sum of the amounts of the coins. -/
def inputTotal (request : Request) : Nat :=
  Coin.total request.coins

/-- The sum of the amounts of the payments. -/
def outputTotal (request : Request) : Nat :=
  Payment.total request.payments

/-- The change that is paid back: nothing up to the network's dust threshold. -/
def paidChange (request : Request) : Nat :=
  if request.network.params.dustThreshold.toNat < request.inputTotal - request.outputTotal then
    request.inputTotal - request.outputTotal
  else 0

/-- The output that pays change back to the coins, if there is one. -/
def changeOutputs (request : Request) : List TxOut :=
  match request.coins with
  | coin :: _ =>
    if 0 < request.paidChange then [⟨UInt64.ofNat request.paidChange, coin.lock⟩] else []
  | [] => []

/-- The outputs before that of the payload. -/
def paidOutputs (request : Request) : List TxOut :=
  request.payments.map (·.output request.network) ++ request.changeOutputs

/-- The transaction that a request is built into. -/
def transaction (request : Request) : Transaction where
  version := 2
  lockTime := 0
  inputs := request.coins.map Coin.input
  outputs := request.paidOutputs ++ payloadOutputs request.payload

/-- The estimated size of the transaction. -/
def estimate (request : Request) : Nat :=
  Fee.virtualSize request.coins.length request.paidOutputs.length request.payload.length

/-- The packet that a request is built into. -/
def packet (request : Request) : Packet where
  unsignedTx := request.transaction
  globals := KeyMap.empty
  inputs := request.coins.map fun coin => fieldsOf coin.lock coin (coin.spend request.network)
  outputs := request.transaction.outputs.map fun _ => KeyMap.empty

section Change

variable {request : Request}

theorem paidChange_le (request : Request) : request.paidChange ≤ request.inputTotal := by
  unfold paidChange
  split <;> omega

/-- Change is paid back if it exceeds the threshold. -/
theorem paidChange_pos_iff :
    0 < request.paidChange ↔
      request.network.params.dustThreshold.toNat < request.inputTotal - request.outputTotal := by
  unfold paidChange
  split <;> omega

/-- Change that is paid back is all that is left. -/
theorem paidChange_eq (paid : 0 < request.paidChange) :
    request.paidChange = request.inputTotal - request.outputTotal :=
  if_pos (paidChange_pos_iff.mp paid)

theorem changeOutputs_of_coins {coin : Coin} {coins : List Coin}
    (same : request.coins = coin :: coins) :
    request.changeOutputs =
      if 0 < request.paidChange then [⟨UInt64.ofNat request.paidChange, coin.lock⟩] else [] := by
  simp only [changeOutputs, same]

theorem changeOutputs_of_not_pos (unpaid : ¬ 0 < request.paidChange) :
    request.changeOutputs = [] := by
  cases coins : request.coins with
  | nil => simp only [changeOutputs, coins]
  | cons coin rest => rw [changeOutputs_of_coins coins, if_neg unpaid]

/-- Only coins exceed the payments. -/
theorem coins_of_exceeds (exceeds : request.outputTotal < request.inputTotal) :
    request.coins ≠ [] := by
  intro none
  rw [inputTotal, none] at exceeds
  exact absurd exceeds (Nat.not_lt_zero _)

/-- Change comes from coins. -/
theorem coins_of_paidChange_pos (paid : 0 < request.paidChange) : request.coins ≠ [] := by
  have above := paidChange_pos_iff.mp paid
  exact coins_of_exceeds (by omega)

theorem mem_changeOutputs {output : TxOut} (member : output ∈ request.changeOutputs) :
    0 < request.paidChange ∧ ∃ coin ∈ request.coins,
      output = ⟨UInt64.ofNat request.paidChange, coin.lock⟩ := by
  by_cases paid : 0 < request.paidChange
  · obtain ⟨coin, coins, same⟩ := List.exists_cons_of_ne_nil (coins_of_paidChange_pos paid)
    rw [changeOutputs_of_coins same, if_pos paid, List.mem_singleton] at member
    exact ⟨paid, coin, by rw [same]; exact List.mem_cons_self, member⟩
  · rw [changeOutputs_of_not_pos paid] at member
    cases member

end Change

section Assemble

variable {request : Request}

/-- Whether the coins and payments of a request can be put into a transaction. -/
structure Assembles (request : Request) : Prop where
  payload : request.payload.length ≤ 64
  coins : ∀ coin ∈ request.coins, coin.Spendable
  oneAddress : ∀ first ∈ request.coins.head?, ∀ coin ∈ request.coins,
    first.address request.network = coin.address request.network
  inputTotal : request.inputTotal < 2 ^ 64
  payable : ∀ payment ∈ request.payments, payment.Payable request.network
  outputTotal : request.outputTotal < 2 ^ 64
  covered : request.outputTotal ≤ request.inputTotal

theorem checkPayload_eq_ok_iff :
    request.checkPayload = .ok () ↔ request.payload.length ≤ 64 := by
  unfold checkPayload Fee.maxPayload
  split
  · rename_i large
    exact ⟨fun done => (nomatch done), fun small => absurd small (Nat.not_le.mpr large)⟩
  · rename_i small
    exact ⟨fun _ => Nat.not_lt.mp small, fun _ => rfl⟩

/-- What is left of a total that covers the outputs. -/
theorem change_eq_ok_iff {total outputs : Nat} (totalFits : total < 2 ^ 64)
    (outputsFit : outputs < 2 ^ 64) {rest : UInt64} :
    change (UInt64.ofNat total) (UInt64.ofNat outputs) = .ok rest ↔
      outputs ≤ total ∧ rest = UInt64.ofNat (total - outputs) := by
  have less : UInt64.ofNat total < UInt64.ofNat outputs ↔ total < outputs := by
    rw [UInt64.lt_iff_toNat_lt, UInt64.toNat_ofNat_of_lt' totalFits,
      UInt64.toNat_ofNat_of_lt' outputsFit]
  unfold change
  split
  · rename_i short
    simp [Nat.not_le.mpr (less.mp short)]
  · rename_i enough
    have covered := Nat.not_lt.mp (mt less.mpr enough)
    simp [covered, UInt64.ofNat_sub covered, eq_comm]

/-- The threshold decides whether there is change, and there are coins to return it to. -/
private theorem addChange_step (fits : request.inputTotal < 2 ^ 64) {main : Group}
    {left tx : Transaction} :
    (if request.network.params.dustThreshold <
          UInt64.ofNat (request.inputTotal - request.outputTotal) then do
        addChange (Group.join {} request.coins request.network)
          (UInt64.ofNat (request.inputTotal - request.outputTotal)) request.network
        pure (Group.join {} request.coins request.network)
      else pure (Group.join {} request.coins request.network) : Assembly Group).runFrom left =
      (.ok main, tx) ↔
        main = Group.join {} request.coins request.network ∧
          tx = { left with outputs := left.outputs ++ request.changeOutputs } := by
  have restFits : request.inputTotal - request.outputTotal < 2 ^ 64 := by omega
  have exceeds : request.network.params.dustThreshold <
      UInt64.ofNat (request.inputTotal - request.outputTotal) ↔ 0 < request.paidChange := by
    rw [UInt64.lt_iff_toNat_lt, UInt64.toNat_ofNat_of_lt' restFits, paidChange_pos_iff]
  have returned : (if request.network.params.dustThreshold <
        UInt64.ofNat (request.inputTotal - request.outputTotal) then
      request.coins.head?.toList.map fun coin =>
        ⟨UInt64.ofNat (request.inputTotal - request.outputTotal), coin.lock⟩
      else []) = request.changeOutputs := by
    split
    · rename_i above
      have paid := exceeds.mp above
      obtain ⟨coin, coins, same⟩ := List.exists_cons_of_ne_nil (coins_of_paidChange_pos paid)
      rw [changeOutputs_of_coins same, if_pos paid, paidChange_eq paid, same]
      rfl
    · rename_i within
      exact (changeOutputs_of_not_pos (mt exceeds.mpr within)).symm
  rw [runFrom_payChange fun above => coins_of_paidChange_pos (exceeds.mp above), returned,
    Prod.mk.injEq, Except.ok.injEq]
  exact and_congr eq_comm eq_comm

/-- The transaction is assembled up to the payload exactly when it can be. -/
theorem assemble_eq_ok_iff {main : Group} {tx : Transaction} :
    (assemble request).runFrom Transaction.blank = (.ok main, tx) ↔
      request.Assembles ∧ main = Group.join {} request.coins request.network ∧
        tx = ⟨2, 0, request.coins.map Coin.input, request.paidOutputs⟩ := by
  unfold assemble
  simp only [runFrom_lift, runFrom_bind_eq_ok_iff, addInputs_eq_ok_iff, addOutputs_eq_ok_iff,
    Prod.mk.injEq]
  constructor
  · rintro ⟨⟨⟩, _, ⟨payload, rfl⟩, _, _, ⟨coins, oneAddress, inputFits, rfl, rfl⟩, _, _,
      ⟨payable, outputFits, rfl, rfl⟩, rest, _, ⟨changed, rfl⟩, run⟩
    rw [total_join] at changed
    obtain ⟨covered, rfl⟩ := (change_eq_ok_iff inputFits outputFits).mp changed
    obtain ⟨rfl, rfl⟩ := (addChange_step inputFits).mp run
    exact ⟨⟨checkPayload_eq_ok_iff.mp payload, coins, oneAddress, inputFits, payable, outputFits,
      covered⟩, rfl, rfl⟩
  · rintro ⟨assembles, rfl, rfl⟩
    refine ⟨(), _, ⟨checkPayload_eq_ok_iff.mpr assembles.payload, rfl⟩, _, _,
      ⟨assembles.coins, assembles.oneAddress, assembles.inputTotal, rfl, rfl⟩, _, _,
      ⟨assembles.payable, assembles.outputTotal, rfl, rfl⟩, _, _, ⟨?_, rfl⟩,
      (addChange_step assembles.inputTotal).mpr ⟨rfl, ?_⟩⟩
    · rw [total_join]
      exact (change_eq_ok_iff assembles.inputTotal assembles.outputTotal).mpr
        ⟨assembles.covered, rfl⟩
    · rfl

end Assemble

/-- Whether a request can be built. -/
structure Admissible (request : Request) : Prop where
  payload : request.payload.length ≤ 64
  coins : ∀ coin ∈ request.coins, coin.Spendable
  /-- All coins derive one address. -/
  oneAddress : ∃ address, ∀ coin ∈ request.coins, ∃ spend,
    Spend.derive coin.script coin.routeBackup coin.sequence request.network = .ok spend ∧
      spend.address = address
  inputTotal : request.inputTotal < 2 ^ 64
  payable : ∀ payment ∈ request.payments, payment.Payable request.network
  outputTotal : request.outputTotal < 2 ^ 64
  covered : request.outputTotal ≤ request.inputTotal
  /-- The transaction is no larger than its estimate. -/
  size : request.transaction.encode.length ≤ request.estimate
  weight : 4 * request.estimate ≤ 300000
  spends : request.coins ≠ []
  /-- There is a payment, change or a payload. -/
  pays : request.payments ≠ [] ∨
    request.network.params.dustThreshold.toNat < request.inputTotal - request.outputTotal ∨
    request.payload ≠ []
  /-- No more is paid than all the coins there are. -/
  supply : request.outputTotal + request.paidChange ≤ 2100000000000000
  distinct : (request.coins.map Coin.outPoint).Nodup
  notNull : ∀ coin ∈ request.coins, coin.outPoint ≠ OutPoint.null
  /-- Every payment is worth spending. -/
  worth : ∀ payment ∈ request.payments,
    Relay.dustLimit (payment.output request.network) ≤ payment.satoshi.toNat

section Transaction

variable {request : Request}

theorem transaction_unsigned (request : Request) : request.transaction.Unsigned := by
  intro input member
  obtain ⟨coin, _, rfl⟩ := List.mem_map.mp member
  exact ⟨rfl, rfl⟩

theorem map_previous_transaction (request : Request) :
    request.transaction.inputs.map TxIn.previous = request.coins.map Coin.outPoint := by
  simp only [transaction, List.map_map]
  rfl

/-- The outputs of a request, by what they are for. -/
theorem mem_outputs_iff {output : TxOut} :
    output ∈ request.transaction.outputs ↔
      (∃ payment ∈ request.payments, payment.output request.network = output) ∨
        output ∈ request.changeOutputs ∨ output ∈ payloadOutputs request.payload := by
  simp only [transaction, paidOutputs, List.mem_append, List.mem_map, or_assoc]

theorem mem_payloadOutputs {payload : Bytes} {output : TxOut}
    (member : output ∈ payloadOutputs payload) :
    payload ≠ [] ∧ output = ⟨0, Script.nullData payload⟩ := by
  unfold payloadOutputs at member
  split at member
  · cases member
  · rename_i carries
    exact ⟨by simpa using carries, List.mem_singleton.mp member⟩

/-- The outputs of a request pay what is requested and the change. -/
theorem total_outputs (spends : request.coins ≠ []) (fits : request.inputTotal < 2 ^ 64) :
    TxOut.total request.transaction.outputs = request.outputTotal + request.paidChange := by
  have change : TxOut.total request.changeOutputs = request.paidChange := by
    have small : request.paidChange < 2 ^ 64 := Nat.lt_of_le_of_lt request.paidChange_le fits
    obtain ⟨coin, coins, same⟩ := List.exists_cons_of_ne_nil spends
    rw [changeOutputs_of_coins same]
    split
    · simp only [TxOut.total, List.map_cons, List.map_nil, List.sum_cons, List.sum_nil,
        UInt64.toNat_ofNat_of_lt' small, Nat.add_zero]
    · rename_i unpaid
      exact (Nat.eq_zero_of_not_pos unpaid).symm
  have payload : TxOut.total (payloadOutputs request.payload) = 0 := by
    unfold payloadOutputs
    split <;> rfl
  have payments : TxOut.total (request.payments.map (·.output request.network)) =
      request.outputTotal := by
    simp only [TxOut.total, List.map_map]
    rfl
  have append (a b : List TxOut) : TxOut.total (a ++ b) = TxOut.total a + TxOut.total b := by
    simp only [TxOut.total, List.map_append, List.sum_append]
  rw [transaction, paidOutputs, append, append, change, payload, payments, Nat.add_zero]

end Transaction

section Policy

variable {request : Request}

private theorem dustLimit_lock_le (coin : Coin) (value : UInt64) :
    Relay.dustLimit ⟨value, coin.lock⟩ ≤ 330 := by
  have witness := Script.isWitnessProgram_payToWitness coin.length_program
  have length := Script.length_payToWitness 0 coin.program
  rw [Relay.dustLimit, coin.lock_eq]
  simp only [witness, ↓reduceIte, TxOut.length_encode, length]
  rcases coin.length_program with size | size <;> rw [size] <;> decide

private theorem isStandard_lock (coin : Coin) {value : UInt64} (worth : 330 ≤ value.toNat) :
    Relay.IsStandard ⟨value, coin.lock⟩ := by
  exact .inr ⟨coin.isSome_template?_lock, Nat.le_trans (dustLimit_lock_le coin value) worth⟩

private theorem dustThreshold_ge (network : Network) :
    1000 ≤ network.params.dustThreshold.toNat := by
  cases network <;> decide

/-- What the assembly appends by itself is standard, so that only payments can be dust. -/
theorem isStandard_outputs_iff (assembles : request.Assembles) :
    (∀ output ∈ request.transaction.outputs, Relay.IsStandard output) ↔
      ∀ payment ∈ request.payments,
        Relay.dustLimit (payment.output request.network) ≤ payment.satoshi.toNat := by
  constructor
  · intro standard payment member
    have paid := (assembles.payable payment member).toScript
    rcases standard _ (mem_outputs_iff.mpr (.inl ⟨payment, member, rfl⟩)) with data | ⟨_, worth⟩
    · rw [(Address.template?_of_toScript paid).2] at data
      cases data
    · exact worth
  · intro worth output member
    rcases mem_outputs_iff.mp member with ⟨payment, requested, rfl⟩ | change | payload
    · have paid := (assembles.payable payment requested).toScript
      exact .inr ⟨(Address.template?_of_toScript paid).1, worth payment requested⟩
    · obtain ⟨paid, coin, _, rfl⟩ := mem_changeOutputs change
      have threshold := dustThreshold_ge request.network
      have above := paidChange_pos_iff.mp paid
      rw [← paidChange_eq paid] at above
      have small := Nat.lt_of_le_of_lt request.paidChange_le assembles.inputTotal
      refine isStandard_lock coin ?_
      rw [UInt64.toNat_ofNat_of_lt' small]
      omega
    · obtain ⟨_, rfl⟩ := mem_payloadOutputs payload
      have short := assembles.payload
      exact .inl (Script.isNullData_nullData (by omega))

theorem isNullData_payment (assembles : request.Assembles) {payment : Payment}
    (requested : payment ∈ request.payments) :
    (payment.output request.network).script.isNullData = false :=
  (Address.template?_of_toScript (assembles.payable payment requested).toScript).2

theorem isNullData_change {output : TxOut} (member : output ∈ request.changeOutputs) :
    output.script.isNullData = false := by
  obtain ⟨_, coin, _, rfl⟩ := mem_changeOutputs member
  rw [coin.lock_eq]
  exact Script.isNullData_eq_false (by decide)

/-- Only the payload is data. -/
theorem countP_isNullData_outputs (assembles : request.Assembles) :
    request.transaction.outputs.countP (·.script.isNullData) ≤ 1 := by
  have payments : (request.payments.map (·.output request.network)).countP
      (·.script.isNullData) = 0 := by
    rw [List.countP_eq_zero]
    intro output member
    obtain ⟨payment, requested, rfl⟩ := List.mem_map.mp member
    rw [isNullData_payment assembles requested]
    exact Bool.false_ne_true
  have change : request.changeOutputs.countP (·.script.isNullData) = 0 := by
    rw [List.countP_eq_zero]
    intro output member
    rw [isNullData_change member]
    exact Bool.false_ne_true
  have single : (payloadOutputs request.payload).length ≤ 1 := by
    unfold payloadOutputs
    split
    · exact Nat.zero_le 1
    · exact Nat.le_refl 1
  have payload : (payloadOutputs request.payload).countP (·.script.isNullData) ≤
      (payloadOutputs request.payload).length := List.countP_le_length
  rw [transaction, paidOutputs, List.countP_append, List.countP_append, payments, change]
  omega

end Policy

section Build

variable {request : Request} {packet : Packet} {clock : UInt64}

private theorem checkSize_eq_ok_iff {tx : Transaction} {estimate : Nat} :
    checkSize tx estimate = .ok () ↔ tx.encode.length ≤ estimate ∧ 4 * estimate ≤ 300000 := by
  simp only [checkSize, Except.check_eq_ok_iff, Except.last_check_eq_ok_iff, Nat.not_lt]
  exact Iff.rfl

/-- Coins that derive one address have it, and one locking script. -/
private theorem zipWith_fieldsOf {lock : Script} {coins : List Coin} {network : Network}
    (same : ∀ coin ∈ coins, coin.lock = lock) :
    List.zipWith (fieldsOf lock) coins (coins.map (·.spend network)) =
      coins.map fun coin => fieldsOf coin.lock coin (coin.spend network) := by
  induction coins with
  | nil => rfl
  | cons coin coins ih =>
    obtain ⟨here, later⟩ := List.forall_mem_cons.mp same
    rw [List.map_cons, List.zipWith_cons_cons, ih later, List.map_cons, here]

private theorem checkScripts_eq_ok (index : Nat) {inputs : List InputFields}
    (known : ∀ fields ∈ inputs, fields.witnessUtxo.isSome = true) :
    Packet.checkScripts index inputs = .ok () := by
  induction inputs generalizing index with
  | nil => rfl
  | cons fields inputs ih =>
    obtain ⟨here, later⟩ := List.forall_mem_cons.mp known
    simp [Packet.checkScripts, Option.isNone_eq_false_iff.mpr here, ih _ later]

/-- The maps of the packet fit its transaction. -/
theorem checkSanity_packet (request : Request) : request.packet.checkSanity = .ok () := by
  have unsigned := Packet.checkUnsigned_eq_ok_iff.mpr request.transaction_unsigned
  have inputs : request.packet.inputs.length = request.transaction.inputs.length := by
    simp only [packet, transaction, List.length_map]
  have outputs : request.packet.outputs.length = request.transaction.outputs.length := by
    simp only [packet, List.length_map]
  have known : ∀ fields ∈ request.packet.inputs, fields.witnessUtxo.isSome = true := by
    intro fields member
    obtain ⟨coin, _, rfl⟩ := List.mem_map.mp member
    rfl
  simp only [Packet.checkSanity, Except.seq_eq_ok_iff, Except.check_eq_ok_iff]
  exact ⟨unsigned, not_not.mpr inputs, not_not.mpr outputs, checkScripts_eq_ok 0 known⟩

/-- Coins of one address have the locking script of the first. -/
theorem Assembles.lock_eq (assembles : request.Assembles) {first : Coin}
    (head : first ∈ request.coins.head?) : ∀ coin ∈ request.coins, coin.lock = first.lock :=
  fun coin member => (Coin.lock_eq_of_address_eq (assembles.oneAddress first head coin member)).symm

/-- The packet of coins of one address has the fields of each coin under its own script. -/
theorem packetOf_eq_ok (assembles : request.Assembles) (spends : request.coins ≠ []) :
    packetOf request.transaction request.coins (Group.join {} request.coins request.network) =
      .ok request.packet := by
  obtain ⟨first, coins, same⟩ := List.exists_cons_of_ne_nil spends
  have head : first ∈ request.coins.head? := by
    rw [same]
    rfl
  have locks := assembles.lock_eq head
  have origin : (Group.join {} request.coins request.network).origin =
      some (first.address request.network, first.lock) := by
    rw [Group.join, same]
    rfl
  have spent : (Group.join {} request.coins request.network).spends =
      request.coins.map (·.spend request.network) := List.nil_append _
  have fresh : Packet.new request.transaction = .ok (Packet.ofTransaction request.transaction) := by
    have unsigned := Packet.checkUnsigned_eq_ok_iff.mpr request.transaction_unsigned
    rw [Packet.new, unsigned]
    rfl
  simp only [packetOf, origin, spent, fresh, zipWith_fieldsOf locks]
  change (do
    (request.packet.checkSanity.mapError Packet.Fault.toError)
    pure request.packet : Except Error Packet) = _
  rw [checkSanity_packet]
  rfl

/-- What is left to do when a transaction has been assembled. -/
theorem build_of_assembles (assembles : request.Assembles) :
    request.build clock = (do
      checkSize request.transaction request.estimate
      Sanity.check request.transaction
      Relay.check request.transaction Relay.lockTimeThreshold (clock + UInt64.ofNat Lock.maxSeconds)
      packetOf request.transaction request.coins
        (Group.join {} request.coins request.network)) := by
  have run := assemble_eq_ok_iff.mpr ⟨assembles, rfl, rfl⟩
  have estimate : Fee.virtualSize (request.coins.map Coin.input).length request.paidOutputs.length
      request.payload.length = request.estimate := by
    rw [List.length_map]
    rfl
  unfold build
  rw [run]
  dsimp only
  rw [estimate]
  rfl

private theorem assembles_of_build (built : request.build clock = .ok packet) : request.Assembles := by
  unfold build at built
  rcases run : (assemble request).runFrom Transaction.blank with ⟨outcome, tx⟩
  rw [run] at built
  cases outcome with
  | error failure => cases built
  | ok main => exact (assemble_eq_ok_iff.mp run).1

/-- Coins that can be spent derive one address exactly when all have the first coin's. -/
private theorem oneAddress_iff (coins : ∀ coin ∈ request.coins, coin.Spendable) :
    (∀ first ∈ request.coins.head?, ∀ coin ∈ request.coins,
        first.address request.network = coin.address request.network) ↔
      ∃ address, ∀ coin ∈ request.coins, ∃ spend,
        Spend.derive coin.script coin.routeBackup coin.sequence request.network = .ok spend ∧
          spend.address = address := by
  constructor
  · intro same
    cases first : request.coins.head? with
    | none =>
      rw [List.head?_eq_none_iff] at first
      exact ⟨"", by simp [first]⟩
    | some coin =>
      refine ⟨coin.address request.network, fun other member => ?_⟩
      refine ⟨_, (coins other member).derive request.network, ?_⟩
      exact (same coin first other member).symm
  · rintro ⟨address, derived⟩
    have known {coin : Coin} (member : coin ∈ request.coins) :
        coin.address request.network = address := by
      obtain ⟨spend, found, rfl⟩ := derived coin member
      rw [(coins coin member).derive, Except.ok.injEq] at found
      rw [← found]
      rfl
    intro first member coin member'
    rw [known (List.mem_of_mem_head? member), known member']

theorem Admissible.assembles (admissible : request.Admissible) : request.Assembles where
  payload := admissible.payload
  coins := admissible.coins
  oneAddress := (oneAddress_iff admissible.coins).mpr admissible.oneAddress
  inputTotal := admissible.inputTotal
  payable := admissible.payable
  outputTotal := admissible.outputTotal
  covered := admissible.covered

private theorem pays_iff (spends : request.coins ≠ []) :
    request.transaction.outputs ≠ [] ↔
      request.payments ≠ [] ∨
        request.network.params.dustThreshold.toNat < request.inputTotal - request.outputTotal ∨
        request.payload ≠ [] := by
  obtain ⟨first, coins, same⟩ := List.exists_cons_of_ne_nil spends
  have change : request.changeOutputs ≠ [] ↔ 0 < request.paidChange := by
    rw [changeOutputs_of_coins same]
    split <;> simp_all
  have payload : payloadOutputs request.payload ≠ [] ↔ request.payload ≠ [] := by
    unfold payloadOutputs
    split <;> simp_all
  simp only [transaction, paidOutputs, ne_eq, List.append_eq_nil_iff, List.map_eq_nil_iff,
    Decidable.not_and_iff_or_not] at change payload ⊢
  rw [change, payload, ← paidChange_pos_iff, or_assoc]

/-- A request that can be assembled passes the checks that follow exactly when it is admissible,
whatever the time. -/
private theorem checks_iff {medianTime : UInt64} (assembles : request.Assembles) :
    (checkSize request.transaction request.estimate = .ok () ∧
      Sanity.check request.transaction = .ok () ∧
      Relay.check request.transaction Relay.lockTimeThreshold medianTime = .ok ()) ↔
      request.Admissible := by
  have unsigned := request.transaction_unsigned
  have outpoints := request.map_previous_transaction
  rw [checkSize_eq_ok_iff, Sanity.check_eq_ok_iff unsigned, Relay.check_eq_ok_iff unsigned rfl rfl,
    isStandard_outputs_iff assembles, outpoints]
  constructor
  · rintro ⟨⟨size, weight⟩, ⟨inputs, outputs, _, supply, distinct, notNull⟩, _, worth, _⟩
    have spends : request.coins ≠ [] := fun none => inputs (by rw [transaction, none]; rfl)
    rw [total_outputs spends assembles.inputTotal] at supply
    exact {
      payload := assembles.payload
      coins := assembles.coins
      oneAddress := (oneAddress_iff assembles.coins).mp assembles.oneAddress
      inputTotal := assembles.inputTotal
      payable := assembles.payable
      outputTotal := assembles.outputTotal
      covered := assembles.covered
      size := size
      weight := weight
      spends := spends
      pays := (pays_iff spends).mp outputs
      supply := supply
      distinct := distinct
      notNull := fun coin member => notNull coin.input (List.mem_map_of_mem member)
      worth := worth }
  · intro admissible
    have spends := admissible.spends
    have inputs : request.transaction.inputs ≠ [] := by simpa [transaction] using spends
    have size := admissible.size
    have weight := admissible.weight
    refine ⟨⟨size, weight⟩, ⟨inputs, (pays_iff spends).mpr admissible.pays, ?_, ?_,
      admissible.distinct, ?_⟩, ?_, admissible.worth, countP_isNullData_outputs assembles⟩
    · rw [Transaction.baseSize, ← unsigned.encode_eq inputs, Sanity.maxSize]
      omega
    · rw [total_outputs spends assembles.inputTotal]
      exact admissible.supply
    · intro input member
      obtain ⟨coin, held, rfl⟩ := List.mem_map.mp member
      exact admissible.notNull coin held
    · rw [unsigned.weight_eq inputs, Relay.maxWeight]
      omega

/-- A request is built exactly when it is admissible, and into the packet that it says, at any time. -/
theorem build_eq_ok_iff :
    request.build clock = .ok packet ↔ request.Admissible ∧ request.packet = packet := by
  constructor
  · intro built
    have assembles := assembles_of_build built
    rw [build_of_assembles assembles] at built
    simp only [Except.seq_eq_ok_iff] at built
    obtain ⟨size, sane, standard, packed⟩ := built
    have admissible := (checks_iff assembles).mp ⟨size, sane, standard⟩
    rw [packetOf_eq_ok assembles admissible.spends, Except.ok.injEq] at packed
    exact ⟨admissible, packed⟩
  · rintro ⟨admissible, rfl⟩
    obtain ⟨size, sane, standard⟩ := (checks_iff admissible.assembles).mpr admissible
    rw [build_of_assembles admissible.assembles, size, sane, standard]
    exact packetOf_eq_ok admissible.assembles admissible.spends

/-- Whatever comes of a request comes of it at any other time. -/
theorem build_clock_eq (request : Request) (clock later : UInt64) :
    request.build clock = request.build later := by
  have relayed (medianTime medianTime' : UInt64) :
      Relay.check request.transaction Relay.lockTimeThreshold medianTime =
        Relay.check request.transaction Relay.lockTimeThreshold medianTime' := rfl
  by_cases assembles : request.Assembles
  · rw [build_of_assembles assembles, build_of_assembles assembles, relayed]
  · unfold build
    rcases run : (assemble request).runFrom Transaction.blank with ⟨outcome, tx⟩
    cases outcome with
    | error failure =>
      change (.error failure : Except Error Packet) = .error failure
      rfl
    | ok main => exact absurd (assemble_eq_ok_iff.mp run).1 assembles

/-- A request is built, into some packet, exactly when it is admissible, at any time. -/
theorem exists_build_iff_admissible (request : Request) (clock : UInt64) :
    (∃ packet, request.build clock = .ok packet) ↔ request.Admissible := by
  constructor
  · rintro ⟨packet, built⟩
    exact (build_eq_ok_iff.mp built).1
  · intro admissible
    exact ⟨request.packet, build_eq_ok_iff.mpr ⟨admissible, rfl⟩⟩

end Build

section Sweep

/-- The compressed encoding of the curve's generator. -/
def generatorScript : Script :=
  0x02 :: Bytes.ofNatBE 32 0x79be667ef9dcbbac55a06295ce870b07029bfcdb2dce28d959f2815b16f81798

/-- A coin under the key of the generator. -/
def generatorCoin : Coin where
  transactionHash := String.ofList (List.replicate 64 '1')
  index := 0
  satoshi := 2000
  script := generatorScript
  sequence := 0
  routeBackup := false

theorem spendable_generatorCoin : generatorCoin.Spendable where
  valued := by decide
  named := ⟨by decide, List.all_eq_true.mp (by decide)⟩
  shaped := .inl ⟨by decide, rfl⟩
  locked := fun backup => nomatch backup

/-- A request that returns one coin to the address that it comes from. -/
def sweep : Request :=
  { coins := [generatorCoin], payments := [], payload := [], network := .bitcoin }

theorem admissible_sweep : sweep.Admissible where
  payload := by decide
  coins := List.forall_mem_singleton.mpr spendable_generatorCoin
  oneAddress := ⟨_, List.forall_mem_singleton.mpr
    ⟨_, spendable_generatorCoin.derive .bitcoin, rfl⟩⟩
  inputTotal := by decide
  payable := fun _ member => nomatch member
  outputTotal := by decide
  covered := by decide
  size := by decide
  weight := by decide
  spends := by decide
  pays := .inr (.inl (by decide))
  supply := by decide
  distinct := by decide
  notNull := by decide
  worth := fun _ member => nomatch member

theorem build_sweep (clock : UInt64) : sweep.build clock = .ok sweep.packet :=
  build_eq_ok_iff.mpr ⟨admissible_sweep, rfl⟩

end Sweep

section Settlement

/-- The witness script of an account of two holders, either of whom an observer can stand in for
after 432 blocks. -/
def accountScript : Script :=
  let key (x : Nat) : Script := 0x21 :: 0x02 :: Bytes.ofNatBE 32 x
  key 0x79be667ef9dcbbac55a06295ce870b07029bfcdb2dce28d959f2815b16f81798 ++ [0xac, 0x7c] ++
    key 0xc6047f9441ed7d6d3045406e95c07cd85c778e4b8cef3ca7abac09b95c709ee5 ++
    [0xac, 0x93, 0x7c, 0x82, 0x92, 0x63] ++
    key 0xf9308a019258c31049344f85f89d5229b531c845836f99b08601f113bce036f9 ++
    [0xad, 0x02, 0xb0, 0x01, 0xb2, 0x92, 0x68, 0x93, 0x52, 0x87]

/-- A coin of the account. -/
def accountCoin : Coin :=
  { generatorCoin with satoshi := 60000, script := accountScript }

/-- Another coin of the account, on the backup route. -/
def backupCoin : Coin :=
  { accountCoin with index := 1, satoshi := 40000, sequence := 432, routeBackup := true }

/-- A request with all that there can be: two coins, a payment, change and a payload. -/
def settlement : Request where
  coins := [accountCoin, backupCoin]
  payments := [⟨generatorCoin.address .bitcoin, 10000⟩]
  payload := [0x50, 0xff]
  network := .bitcoin

theorem spendable_accountCoin : accountCoin.Spendable :=
  { spendable_generatorCoin with valued := by decide, shaped := .inr (by decide) }

theorem spendable_backupCoin : backupCoin.Spendable :=
  { spendable_accountCoin with
    valued := by decide, shaped := .inr (by decide), locked := fun _ => by decide }

theorem admissible_settlement : settlement.Admissible where
  payload := by decide
  coins := List.forall_mem_cons.mpr
    ⟨spendable_accountCoin, List.forall_mem_singleton.mpr spendable_backupCoin⟩
  oneAddress := ⟨_, List.forall_mem_cons.mpr ⟨⟨_, spendable_accountCoin.derive .bitcoin, rfl⟩,
    List.forall_mem_singleton.mpr ⟨_, spendable_backupCoin.derive .bitcoin, rfl⟩⟩⟩
  inputTotal := by decide
  payable := List.forall_mem_singleton.mpr ⟨_, generatorCoin.toScript_address .bitcoin⟩
  outputTotal := by decide
  covered := by decide
  size := by decide +kernel
  weight := by decide
  spends := by decide
  pays := .inl (by decide)
  supply := by decide
  distinct := by decide
  notNull := by decide
  worth := List.forall_mem_singleton.mpr (by decide +kernel)

theorem build_settlement (clock : UInt64) : settlement.build clock = .ok settlement.packet :=
  build_eq_ok_iff.mpr ⟨admissible_settlement, rfl⟩

end Settlement

end Custody.Request
