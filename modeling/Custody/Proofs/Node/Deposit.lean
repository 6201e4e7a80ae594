import Custody.Node.Client
import Custody.Proofs.Address
import Custody.Proofs.Except
import Custody.Proofs.Node.Session

/-! # Deposits are backed by raw transactions

A node may describe a transaction in any way. A deposit is returned exactly where the bytes that
come with the description are a transaction of the hash asked for, and pay the described amount to
the described address. Only the place in the chain is taken from the node alone.
-/

namespace Custody.Node

open Query Script

section Confirms

variable {raw : Transaction} {hash : String} {outputs : Nat} {index : UInt32} {deposit : Deposit}
  {network : Network}

/-- Whether a raw transaction is the one asked for and makes a deposit on a network. -/
structure Confirmed (raw : Transaction) (hash : String) (outputs : Nat) (index : UInt32)
    (deposit : Deposit) (network : Network) : Prop where
  txid : raw.txid.display = hash
  outputs : raw.outputs.length = outputs
  /-- The output pays the amount to a hash in the witness, whose address is that of the deposit. -/
  paid : ∃ program : Bytes, (program.length = 20 ∨ program.length = 32) ∧
    raw.outputs[index.toNat]? = some ⟨deposit.satoshi, payToWitness 0 program⟩ ∧
    Address.encodeWitness 0 program network = .ok deposit.address ∧
    Address.toScript deposit.address network = .ok (payToWitness 0 program)

theorem confirms_eq_ok_true_iff :
    confirms raw hash outputs index deposit network = .ok true ↔
      Confirmed raw hash outputs index deposit network := by
  unfold confirms
  constructor
  · intro confirmed
    split at confirmed
    · cases confirmed
    · rename_i asked
      simp only [Bool.or_eq_true, decide_eq_true_eq, not_or, Decidable.not_not] at asked
      split at confirmed
      · cases confirmed
      · rename_i output found
        split at confirmed
        · cases confirmed
        · rename_i worth
          split at confirmed
          · cases confirmed
          · rename_i shaped
            rw [Bool.not_eq_true', Bool.not_eq_false] at shaped
            obtain ⟨program, size, same⟩ := isWitnessHash_iff.mp shaped
            obtain ⟨address, written, equal⟩ := Except.map_eq_ok_iff.mp confirmed
            obtain rfl := of_decide_eq_true equal
            obtain ⟨value, script⟩ := output
            obtain rfl : value = deposit.satoshi := Decidable.not_not.mp worth
            obtain rfl : payToWitness 0 program = script := same
            obtain ⟨text, written', paid⟩ :=
              Address.exists_encodeWitness network (.inl ⟨rfl, size⟩)
            obtain rfl : text = deposit.address := Except.ok.inj (written'.symm.trans written)
            exact ⟨asked.1, asked.2, program, size, found, written, paid⟩
  · rintro ⟨rfl, rfl, program, size, found, written, _⟩
    have shaped := isWitnessHash_iff.mpr ⟨program, size, rfl⟩
    have rest : (payToWitness 0 program).drop 2 = program := rfl
    simp [found, shaped, rest, written, Except.map]

end Confirms

section Located

variable {session left : Session} {described deposit : Deposit} {blockhash : String}

/-- Whether a deposit has the place in the chain that the node gives it: none without a block, and
otherwise that of the block in a reply. -/
structure Located (reply? : Option (Except Error String)) (blockhash : String)
    (deposit : Deposit) : Prop where
  outside : blockhash = "" → deposit.height = 0xFFFFFFFFFFFFFFFF ∧ deposit.time = none
  inside : blockhash ≠ "" → ∃ reply block, reply? = some reply ∧
    Holds BlockRecord.decode reply block ∧ deposit.height = block.height ∧
      deposit.time = some block.time

/-- A deposit gets its place in the chain and changes in nothing else. -/
theorem exists_locate_iff (untimed : described.time = none) :
    (∃ left, (locate described blockhash).runOn session = (.ok deposit, left)) ↔
      { described with height := deposit.height, time := deposit.time } = deposit ∧
        Located session.replies.head? blockhash deposit := by
  unfold locate
  by_cases outside : blockhash = ""
  · rw [outside, if_pos (by rfl)]
    simp only [runOn_pure_eq_ok_iff]
    constructor
    · rintro ⟨_, rfl, rfl⟩
      exact ⟨rfl, fun _ => ⟨rfl, untimed⟩, fun inside => absurd rfl inside⟩
    · rintro ⟨same, located⟩
      obtain ⟨height, time⟩ := located.outside rfl
      refine ⟨session, ?_, rfl⟩
      rw [← same, height, time, ← untimed]
  · have named : ¬ blockhash.isEmpty = true := by simpa using outside
    rw [if_neg named]
    simp only [runOn_bind_eq_ok_iff, getBlock, callAs_eq_ok_iff, runOn_pure_eq_ok_iff]
    constructor
    · rintro ⟨_, block, _, ⟨⟨reply, taken, holds⟩, rfl⟩, rfl, rfl⟩
      exact ⟨rfl, fun empty => absurd empty outside,
        fun _ => ⟨reply, block, taken, holds, rfl, rfl⟩⟩
    · rintro ⟨same, located⟩
      obtain ⟨reply, block, taken, holds, height, time⟩ := located.inside outside
      refine ⟨_, block, _, ⟨⟨reply, taken, holds⟩, rfl⟩, ?_, rfl⟩
      rw [← same, height, time]

private theorem config_of_locate
    (run : (locate described blockhash).runOn session = (.ok deposit, left)) :
    left.config = session.config := by
  unfold locate at run
  split at run
  · obtain ⟨_, rfl⟩ := runOn_pure_eq_ok_iff.mp run
    rfl
  · simp only [runOn_bind_eq_ok_iff, getBlock, callAs_eq_ok_iff, runOn_pure_eq_ok_iff] at run
    obtain ⟨_, _, ⟨_, rfl⟩, _, rfl⟩ := run
    rfl

end Located

theorem getTransaction_eq_ok_iff {session left : Session} {hash : String} {tx : TxRecord} :
    (getTransaction hash).runOn session = (.ok tx, left) ↔
      (∃ reply record, session.replies.head? = some reply ∧ Holds TxRecord.decode reply record ∧
        record.useLegacyAddresses session.config.network = tx) ∧
      (session.post "getrawtransaction" (.array [.string hash, .nat 1])).2 = left := by
  simp only [getTransaction, runOn_bind_eq_ok_iff, callAs_eq_ok_iff, runOn_get_eq_ok_iff,
    runOn_pure_eq_ok_iff]
  constructor
  · rintro ⟨record, _, ⟨⟨reply, taken, holds⟩, rfl⟩, _, _, ⟨rfl, rfl⟩, rfl, rfl⟩
    exact ⟨⟨reply, record, taken, holds, rfl⟩, rfl⟩
  · rintro ⟨⟨reply, record, taken, holds, rfl⟩, rfl⟩
    exact ⟨record, _, ⟨⟨reply, taken, holds⟩, rfl⟩, _, _, ⟨rfl, rfl⟩, rfl, rfl⟩

theorem rawTransaction_eq_ok_iff {hash : String} {tx : TxRecord} {raw : Transaction} :
    rawTransaction hash tx = .ok raw ↔
      ∃ bytes, Hex.decode tx.hex = .ok bytes ∧ Transaction.ofBytes? bytes = some raw := by
  unfold rawTransaction
  cases Hex.decode tx.hex with
  | error fault => exact ⟨fun read => (nomatch read), fun ⟨_, read, _⟩ => (nomatch read)⟩
  | ok bytes =>
    cases read : Transaction.ofBytes? bytes with
    | none => simp [read]
    | some found => simp [read, pure, Except.pure]

section Deposit

variable {session : Session} {hash : String} {index : UInt32} {tx : TxRecord}
  {described deposit : Deposit}

/-- What a node describes has no time yet, and is an output of the transaction. -/
theorem of_describedDeposit? (found : describedDeposit? tx index = some described) :
    described.time = none ∧ index.toNat < tx.vout.length := by
  unfold describedDeposit? at found
  split at found
  · cases found
  · rename_i output held
    dsimp only at found
    split at found
    · cases found
    · split at found
      · cases found
      · obtain ⟨satoshi, _, rfl⟩ := Option.map_eq_some_iff.mp found
        exact ⟨rfl, (List.getElem?_eq_some_iff.mp held).1⟩

/-- What is left to do with a description: to place it, and to hold it against the bytes. -/
private theorem exists_checked_iff (session : Session) {tx' : TxRecord}
    (untimed : described.time = none) :
    (∃ left, (do
        let deposit ← locate described tx.blockhash
        let raw ← (rawTransaction hash tx : Except _ _)
        let network := (← get).config.network
        let confirmed ← (confirms raw hash tx.vout.length index deposit network : Except _ _)
        return if confirmed then some (tx, deposit) else none : Query _).runOn session =
          (.ok (some (tx', deposit)), left)) ↔
      tx = tx' ∧ { described with height := deposit.height, time := deposit.time } = deposit ∧
        Located session.replies.head? tx.blockhash deposit ∧
        ∃ bytes raw, Hex.decode tx.hex = .ok bytes ∧ Transaction.ofBytes? bytes = some raw ∧
          Confirmed raw hash tx.vout.length index deposit session.config.network := by
  simp only [runOn_bind_eq_ok_iff, runOn_get_eq_ok_iff, runOn_lift, runOn_pure_eq_ok_iff,
    Prod.mk.injEq, Option.ite_none_right_eq_some, Option.some.injEq]
  constructor
  · rintro ⟨_, _, between, located, raw, _, ⟨decoded, rfl⟩, _, _, ⟨rfl, rfl⟩, _, _,
      ⟨checked, rfl⟩, ⟨rfl, rfl, rfl⟩, _⟩
    obtain ⟨same, placed⟩ := (exists_locate_iff untimed).mp ⟨_, located⟩
    obtain ⟨bytes, spelled, parsed⟩ := rawTransaction_eq_ok_iff.mp decoded
    -- The network is read behind the call for the block, which does not change it.
    rw [config_of_locate located] at checked
    exact ⟨rfl, same, placed, bytes, raw, spelled, parsed, confirms_eq_ok_true_iff.mp checked⟩
  · rintro ⟨rfl, same, placed, bytes, raw, spelled, parsed, confirmed⟩
    obtain ⟨left, located⟩ := (exists_locate_iff untimed).mpr ⟨same, placed⟩
    have decoded : rawTransaction hash tx = .ok raw :=
      rawTransaction_eq_ok_iff.mpr ⟨bytes, spelled, parsed⟩
    have checked := confirms_eq_ok_true_iff.mpr confirmed
    rw [← config_of_locate located] at checked
    exact ⟨left, deposit, left, located, raw, left, ⟨decoded, rfl⟩, left, left, ⟨rfl, rfl⟩,
      true, left, ⟨checked, rfl⟩, ⟨rfl, rfl, rfl⟩, rfl⟩

/-- Whether the replies to come back a deposit at an output, with the description of its
transaction. -/
structure Backed (session : Session) (hash : String) (index : UInt32) (tx : TxRecord)
    (deposit : Deposit) : Prop where
  /-- The first reply describes the transaction. -/
  replied : ∃ reply record, session.replies[0]? = some reply ∧
    Holds TxRecord.decode reply record ∧
    record.useLegacyAddresses session.config.network = tx
  within : index.toNat < tx.vout.length
  /-- The deposit is what is described, up to its place in the chain. -/
  described : ∃ described, describedDeposit? tx index = some described ∧
    { described with height := deposit.height, time := deposit.time } = deposit
  /-- A second reply is taken for the block, if there is one. -/
  located : Located session.replies[1]? tx.blockhash deposit
  /-- The bytes of the transaction say the same. -/
  confirmed : ∃ bytes raw, Hex.decode tx.hex = .ok bytes ∧ Transaction.ofBytes? bytes = some raw ∧
    Confirmed raw hash tx.vout.length index deposit session.config.network

/-- A run of the query returns a deposit if the replies back it. -/
theorem exists_getDeposit_iff :
    (∃ left, (getDeposit hash index).runOn session = (.ok (some (tx, deposit)), left)) ↔
      Backed session hash index tx deposit := by
  simp only [getDeposit, runOn_bind_eq_ok_iff, getTransaction_eq_ok_iff]
  have second : session.replies[1]? = (session.replies.drop 1).head? := by
    rw [List.head?_drop]
  constructor
  · rintro ⟨left, _, _, ⟨⟨reply, record, taken, holds, rfl⟩, rfl⟩, run⟩
    split at run
    · obtain ⟨none, _⟩ := runOn_pure_eq_ok_iff.mp run
      cases none
    · rename_i described viewed
      obtain ⟨untimed, within⟩ := of_describedDeposit? viewed
      obtain ⟨rfl, same, located, confirmed⟩ := (exists_checked_iff _ untimed).mp ⟨left, run⟩
      rw [List.head?_eq_getElem?] at taken
      exact ⟨⟨reply, record, taken, holds, rfl⟩, within, ⟨described, viewed, same⟩,
        second ▸ located, confirmed⟩
  · rintro ⟨⟨reply, record, taken, holds, rfl⟩, _, ⟨described, viewed, same⟩, located, confirmed⟩
    obtain ⟨untimed, _⟩ := of_describedDeposit? viewed
    rw [second] at located
    rw [← List.head?_eq_getElem?] at taken
    obtain ⟨left, run⟩ := (exists_checked_iff
      (session.post "getrawtransaction" (.array [.string hash, .nat 1])).2 untimed).mpr
      ⟨rfl, same, located, confirmed⟩
    refine ⟨left, _, _, ⟨⟨reply, record, taken, holds, rfl⟩, rfl⟩, ?_⟩
    rw [viewed]
    exact run

/-- Whatever the transport replies, a deposit is returned exactly where the replies back it. -/
theorem getDeposit_exact (session : Session) (hash : String) (index : UInt32) (tx : TxRecord)
    (deposit : Deposit) :
    ((getDeposit hash index).runOn session).1 = .ok (some (tx, deposit)) ↔
      Backed session hash index tx deposit := by
  rw [fst_runOn_eq_iff]
  exact exists_getDeposit_iff

/-- One coin to a hash of zeros, outside a block. The identifier is that of the bytes, whatever the
record says. -/
private def zerosRecord : TxRecord where
  txid := ""
  vin := []
  vout := [⟨⟨0x3FF0000000000000⟩, 0,
    ⟨"", "witness_v0_keyhash", "bc1qqqqqqqqqqqqqqqqqqqqqqqqqqqqqqqqq9e75rs", []⟩⟩]
  blockhash := ""
  hex := "0200000001" ++ "0000000000000000000000000000000000000000000000000000000000000000" ++
    "00000000" ++ "00" ++ "ffffffff" ++
    "01" ++ "00e1f50500000000" ++ "160014" ++ "0000000000000000000000000000000000000000" ++
    "00000000"

private def zerosDeposit : Deposit where
  address := "bc1qqqqqqqqqqqqqqqqqqqqqqqqqqqqqqqqq9e75rs"
  satoshi := 100000000
  height := 0xFFFFFFFFFFFFFFFF
  time := none
  coinbase := false

private def zerosSession : Session where
  config := ⟨"", .bitcoin⟩
  replies := [.ok (Json.object [("result", zerosRecord.toJson)]).render]

section Reply

open Json

/-- A description is read from its text, if its amounts are read from theirs. -/
theorem reads_toJson {record : TxRecord}
    (amounts : ∀ output ∈ record.vout, Reads (.real output.value)) : Reads record.toJson := by
  have word (n : UInt32) : Reads (.nat n.toNat) := by
    have small := n.toNat_lt
    exact reads_int (by omega) (by omega)
  have script (record : ScriptRecord) : Reads record.toJson := by
    refine reads_object ?_
    intro field member
    rcases List.mem_append.mp member with fixed | legacy
    · simp only [List.mem_cons, List.not_mem_nil, or_false] at fixed
      rcases fixed with rfl | rfl | rfl
      all_goals exact reads_string _
    · split at legacy
      · cases legacy
      · obtain rfl := List.mem_singleton.mp legacy
        refine reads_array ?_ ?_
        · exact List.forall_mem_map.mpr fun address _ => opens_string address
        · exact List.forall_mem_map.mpr fun address _ => reads_string address
  have input (record : InputRecord) : Reads record.toJson := by
    refine reads_object ?_
    simp only [List.forall_mem_cons]
    exact ⟨reads_string _, reads_string _, word _, fun _ none => nomatch none⟩
  have output (record : OutputRecord) (amount : Reads (.real record.value)) :
      Reads record.toJson := by
    refine reads_object ?_
    simp only [List.forall_mem_cons]
    exact ⟨amount, word _, script _, fun _ none => nomatch none⟩
  refine reads_object ?_
  simp only [List.forall_mem_cons]
  refine ⟨reads_string _, reads_array ?_ ?_, reads_array ?_ ?_, reads_string _, reads_string _,
    fun _ none => nomatch none⟩
  · exact List.forall_mem_map.mpr fun record _ => opens_object _
  · exact List.forall_mem_map.mpr fun record _ => input record
  · exact List.forall_mem_map.mpr fun record _ => opens_object _
  · exact List.forall_mem_map.mpr fun record member => output record (amounts record member)

end Reply

private theorem holds_zeros :
    Holds TxRecord.decode (.ok (Json.object [("result", zerosRecord.toJson)]).render)
      zerosRecord := by
  have one : Json.Reads (.real ⟨0x3FF0000000000000⟩) := by
    have text : Json.written (.real ⟨0x3FF0000000000000⟩) = ['1', '.', '0'] := by decide
    exact Json.reads_real text rfl (List.forall_mem_singleton.mpr rfl) (List.cons_ne_nil _ _)
      (by decide +kernel)
  have order : zerosRecord.toJson.toTree.toJson? (Json.maxDepth - 1) = some (.object [
      ("blockhash", .string ""),
      ("hex", .string zerosRecord.hex),
      ("txid", .string ""),
      ("vin", .array []),
      ("vout", .array [.object [
        ("n", .int 0),
        ("scriptPubKey", .object [
          ("address", .string "bc1qqqqqqqqqqqqqqqqqqqqqqqqqqqqqqqqq9e75rs"),
          ("hex", .string ""),
          ("type", .string "witness_v0_keyhash")]),
        ("value", .real ⟨0x3FF0000000000000⟩)]])]) := rfl
  exact holds_of_reads (reads_toJson (List.forall_mem_singleton.mpr one)) order rfl

/-- The address of a hash of zeros. -/
def zerosAddress : String := "bc1qqqqqqqqqqqqqqqqqqqqqqqqqqqqqqqqq9e75rs"

set_option maxRecDepth 2048 in
theorem encodeWitness_zeros :
    Address.encodeWitness 0 (List.replicate 20 0) .bitcoin = .ok zerosAddress ∧
      Address.toScript zerosAddress .bitcoin = .ok (payToWitness 0 (List.replicate 20 0)) := by
  have written : Address.encodeWitness 0 (List.replicate 20 0) .bitcoin = .ok zerosAddress := by
    decide
  have size : Address.Payable 0 (List.replicate 20 (0 : UInt8)).length := .inl ⟨rfl, .inl rfl⟩
  obtain ⟨address, written', paid⟩ := Address.exists_encodeWitness .bitcoin size
  obtain rfl : address = zerosAddress := Except.ok.inj (written'.symm.trans written)
  exact ⟨written, paid⟩

private def zerosTransaction : Transaction where
  version := 2
  lockTime := 0
  inputs := [⟨⟨Txid.zero, 0⟩, [], 0xFFFFFFFF, []⟩]
  outputs := [⟨100000000, payToWitness 0 (List.replicate 20 0)⟩]

set_option maxRecDepth 2048 in
private theorem decode_zeros : Hex.decode zerosRecord.hex = .ok zerosTransaction.encode ∧
    Transaction.ofBytes? zerosTransaction.encode = some zerosTransaction :=
  ⟨by decide, by decide⟩

private theorem confirmed_zeros :
    Confirmed zerosTransaction "1111d2bbabdb1d5a257240627d6b276f4ec2dbb933fd9fdee053d06a94bced87" 1
      0 zerosDeposit .bitcoin where
  txid := by decide +kernel
  outputs := rfl
  paid := ⟨List.replicate 20 0, .inl rfl, rfl, encodeWitness_zeros⟩

/-- A description that says what the bytes say backs the deposit. -/
theorem getDeposit_exact_zeros :
    Backed zerosSession "1111d2bbabdb1d5a257240627d6b276f4ec2dbb933fd9fdee053d06a94bced87" 0
      zerosRecord zerosDeposit := by
  have amount : Amount.ofDouble? ⟨0x3FF0000000000000⟩ = some 100000000 := by decide
  refine (getDeposit_exact _ _ _ _ _).mp (fst_runOn_eq_iff.mpr (exists_getDeposit_iff.mpr {
    replied := ⟨_, _, rfl, holds_zeros, rfl⟩
    within := Nat.one_pos
    described := ⟨{ zerosDeposit with height := 0 }, ?_, rfl⟩
    located := ⟨fun _ => ⟨rfl, rfl⟩, fun inside => absurd rfl inside⟩
    confirmed := ⟨_, _, decode_zeros.1, decode_zeros.2, confirmed_zeros⟩ }))
  simp [describedDeposit?, zerosRecord, zerosDeposit, amount]

end Deposit

end Custody.Node
