import Custody.Proofs.Node.Deposit

/-! # What only the node says about a deposit

The bytes of a transaction fix the hash, the amount and the address of a deposit. They are not asked
whether the transaction mined its coins, and the identifier in the node's description is not held
against them. So a deposit is returned whatever identifier and inputs the node describes, and is
flagged as mined as the node describes the first input.
-/

namespace Custody.Node

open Query

/-- Whether a node describes a transaction as one that mined its coins. -/
def TxRecord.claimsMined (tx : TxRecord) : Bool :=
  (tx.vin.head?.map (!·.coinbase.isEmpty)).getD false

section Description

variable {session : Session} {hash : String} {index : UInt32} {tx : TxRecord}
  {described deposit : Deposit} {reply : Except Error String} {record : TxRecord}

/-- The description of an output says of its inputs only whether they mined the coins. -/
theorem describedDeposit?_redescribe (tx : TxRecord) (index : UInt32) (txid : String)
    (vin : List InputRecord) :
    describedDeposit? { tx with txid, vin } index =
      (describedDeposit? tx index).map fun described =>
        { described with coinbase := TxRecord.claimsMined { tx with txid, vin } } := by
  unfold describedDeposit?
  cases tx.vout[index.toNat]? with
  | none => rfl
  | some output =>
    dsimp only
    split
    · rfl
    · split
      · rfl
      · rw [Option.map_map]
        rfl

theorem coinbase_of_describedDeposit? (found : describedDeposit? tx index = some described) :
    described.coinbase = tx.claimsMined := by
  have same := describedDeposit?_redescribe tx index tx.txid tx.vin
  rw [found, Option.map_some, Option.some.injEq] at same
  exact congrArg Deposit.coinbase same

/-- A deposit is flagged as the node describes it. -/
theorem Backed.coinbase_eq (backed : Backed session hash index tx deposit) :
    deposit.coinbase = tx.claimsMined := by
  obtain ⟨described, found, same⟩ := backed.described
  have flag := congrArg Deposit.coinbase same
  dsimp only at flag
  rw [← flag, coinbase_of_describedDeposit? found]

/-- Replies back a deposit whatever identifier and inputs the node describes. -/
theorem Backed.redescribe (backed : Backed session hash index tx deposit) {txid : String}
    {vin : List InputRecord} (holds : Holds TxRecord.decode reply record)
    (same : record.useLegacyAddresses session.config.network = { tx with txid, vin }) :
    Backed { session with replies := reply :: session.replies.drop 1 } hash index
      { tx with txid, vin }
      { deposit with coinbase := TxRecord.claimsMined { tx with txid, vin } } where
  replied := ⟨reply, record, rfl, holds, same⟩
  within := backed.within
  described := by
    obtain ⟨described, found, placed⟩ := backed.described
    refine ⟨_, (describedDeposit?_redescribe tx index txid vin).trans
      (congrArg (Option.map _) found), ?_⟩
    rw [← placed]
  located := by
    have second : (reply :: session.replies.drop 1)[1]? = session.replies[1]? := by
      rw [List.getElem?_cons_succ, List.getElem?_drop]
    dsimp only
    rw [second]
    exact ⟨backed.located.outside, backed.located.inside⟩
  confirmed := by
    obtain ⟨bytes, raw, spelled, parsed, confirmed⟩ := backed.confirmed
    exact ⟨bytes, raw, spelled, parsed, confirmed.txid, confirmed.outputs, confirmed.paid⟩

/-- Of a deposit that is returned, the bytes are a transaction of the hash asked for; but it is
flagged as mined as the node describes the inputs. Neither this nor the identifier that the node
describes is held against the bytes: with any others the same deposit is returned, flagged as they
say. -/
theorem getDeposit_flagged
    (found : ((getDeposit hash index).runOn session).1 = .ok (some (tx, deposit))) :
    (∃ bytes raw, Hex.decode tx.hex = .ok bytes ∧ Transaction.ofBytes? bytes = some raw ∧
      raw.txid.display = hash) ∧
    deposit.coinbase = tx.claimsMined ∧
    ∀ txid vin reply record, Holds TxRecord.decode reply record →
      record.useLegacyAddresses session.config.network = { tx with txid, vin } →
      ((getDeposit hash index).runOn
          { session with replies := reply :: session.replies.drop 1 }).1 =
        .ok (some ({ tx with txid, vin },
          { deposit with coinbase := TxRecord.claimsMined { tx with txid, vin } })) := by
  have backed : Backed session hash index tx deposit :=
    exists_getDeposit_iff.mp (fst_runOn_eq_iff.mp found)
  refine ⟨?_, backed.coinbase_eq, fun txid vin reply record holds same => ?_⟩
  · obtain ⟨bytes, raw, spelled, parsed, confirmed⟩ := backed.confirmed
    exact ⟨bytes, raw, spelled, parsed, confirmed.txid⟩
  · exact fst_runOn_eq_iff.mpr (exists_getDeposit_iff.mpr (backed.redescribe holds same))

end Description

section Mined

open Json

/-- A transaction that mined a coin for a hash of zeros. -/
def minedTransaction : Transaction where
  version := 2
  lockTime := 0
  inputs := [⟨OutPoint.null, [0x01, 0x01], 0xFFFFFFFF, []⟩]
  outputs := [⟨100000000, Script.payToWitness 0 (List.replicate 20 0)⟩]

/-- The hash of that transaction. -/
def minedHash : String := "83f638e57252bf7482fb0b54386c75c4493d55a623900ef956321aa4e0407927"

/-- Its description with some identifier and some data of mined coins. -/
def minedRecord (txid data : String) : TxRecord where
  txid
  vin := [⟨data, "", 0⟩]
  vout := [⟨⟨0x3FF0000000000000⟩, 0, ⟨"", "witness_v0_keyhash", zerosAddress, []⟩⟩]
  blockhash := ""
  hex := "0200000001" ++ "0000000000000000000000000000000000000000000000000000000000000000" ++
    "ffffffff" ++ "020101" ++ "ffffffff" ++
    "01" ++ "00e1f50500000000" ++ "160014" ++ "0000000000000000000000000000000000000000" ++
    "00000000"

/-- The description as a node sends it. -/
def minedResult (txid data : String) : Json :=
  .object [
    ("hex", .string (minedRecord txid data).hex),
    ("txid", .string txid),
    ("vin", .array [.object [("coinbase", .string data)]]),
    ("vout", .array [.object [
      ("n", .int 0),
      ("scriptPubKey", .object [
        ("address", .string zerosAddress),
        ("type", .string "witness_v0_keyhash")]),
      ("value", .int 1)]])]

/-- A session with a node that sends it. -/
def minedSession (txid data : String) : Session where
  config := ⟨"http://127.0.0.1:8332", .bitcoin⟩
  replies := [.ok (Json.object [("result", minedResult txid data)]).render]

/-- The coin, with some flag. -/
def minedDeposit (coinbase : Bool) : Deposit where
  address := zerosAddress
  satoshi := 100000000
  height := 0xFFFFFFFFFFFFFFFF
  time := none
  coinbase

variable (txid data : String)

theorem plain_minedResult (depth : Nat) : Plain (depth + 4) (minedResult txid data) := by
  have ascend {fields : List (String × Json)} (names : (fields.map Prod.fst).Pairwise (· < ·)) :
      fields.Pairwise fun before after => before.1 < after.1 := List.pairwise_map.mp names
  have input : Plain (depth + 2) (.object [("coinbase", .string data)]) :=
    .object (List.pairwise_singleton _ _) (List.forall_mem_singleton.mpr (.string data))
  have script : Plain (depth + 1) (.object [("address", .string zerosAddress),
      ("type", .string "witness_v0_keyhash")]) := by
    refine .object (by decide) ?_
    simp only [List.forall_mem_cons]
    exact ⟨.string _, .string _, fun _ none => nomatch none⟩
  have output : Plain (depth + 2) (.object [("n", .int 0), ("scriptPubKey", .object [
      ("address", .string zerosAddress), ("type", .string "witness_v0_keyhash")]),
      ("value", .int 1)]) := by
    refine .object (by decide) ?_
    simp only [List.forall_mem_cons]
    exact ⟨.int (by decide) (by decide), script, .int (by decide) (by decide),
      fun _ none => nomatch none⟩
  refine .object (ascend (show ["hex", "txid", "vin", "vout"].Pairwise (· < ·) by decide)) ?_
  simp only [List.forall_mem_cons]
  exact ⟨.string _, .string _, .array (List.forall_mem_singleton.mpr input),
    .array (List.forall_mem_singleton.mpr output), fun _ none => nomatch none⟩

theorem holds_minedResult :
    Holds TxRecord.decode (.ok (Json.object [("result", minedResult txid data)]).render)
      (minedRecord txid data) :=
  holds_of_reads (plain_minedResult txid data 122).reads
    (plain_minedResult txid data 122).toJson?_toTree rfl

set_option maxRecDepth 2048 in
/-- The bytes that are sent are those of the transaction. -/
theorem decode_minedRecord :
    Hex.decode (minedRecord txid data).hex = .ok minedTransaction.encode ∧
      Transaction.ofBytes? minedTransaction.encode = some minedTransaction := by
  have spelled : Hex.decode (minedRecord "" "").hex = .ok minedTransaction.encode := by
    decide
  exact ⟨spelled, by decide⟩

theorem confirmed_minedDeposit (coinbase : Bool) :
    Confirmed minedTransaction minedHash 1 0 (minedDeposit coinbase) .bitcoin where
  txid := by decide +kernel
  outputs := rfl
  paid := ⟨List.replicate 20 0, .inl rfl, rfl, encodeWitness_zeros⟩

/-- The coin is returned whatever the node says of it. -/
theorem getDeposit_mined :
    ((getDeposit minedHash 0).runOn (minedSession txid data)).1 =
      .ok (some (minedRecord txid data, minedDeposit (!data.isEmpty))) := by
  have amount : Amount.ofDouble? ⟨0x3FF0000000000000⟩ = some 100000000 := by decide
  refine fst_runOn_eq_iff.mpr (exists_getDeposit_iff.mpr {
    replied := ⟨_, _, rfl, holds_minedResult txid data, rfl⟩
    within := Nat.one_pos
    described := ⟨{ minedDeposit (!data.isEmpty) with height := 0 }, ?_, rfl⟩
    located := ⟨fun _ => ⟨rfl, rfl⟩, fun inside => absurd rfl inside⟩
    confirmed := ?_ })
  · simp [describedDeposit?, minedRecord, minedDeposit, zerosAddress, amount]
  · obtain ⟨spelled, parsed⟩ := decode_minedRecord txid data
    exact ⟨_, _, spelled, parsed, confirmed_minedDeposit _⟩

/-- A description with the data of mined coins, and one without them and with another identifier. -/
theorem getDeposit_flagged_mined :
    ((getDeposit minedHash 0).runOn (minedSession minedHash "0101")).1 =
        .ok (some (minedRecord minedHash "0101", minedDeposit true)) ∧
      ((getDeposit minedHash 0).runOn (minedSession "" "")).1 =
        .ok (some (minedRecord "" "", minedDeposit false)) := by
  have found := getDeposit_mined minedHash "0101"
  obtain ⟨_, _, others⟩ := getDeposit_flagged found
  exact ⟨found, others "" [⟨"", "", 0⟩] _ _ (holds_minedResult "" "") rfl⟩

/-- A transaction that mined its coins passes for one that did not, and one passes under an
identifier that it does not have. -/
theorem getDeposit_unflagged :
    (∃ bytes, Hex.decode (minedRecord minedHash "").hex = .ok bytes ∧
        Transaction.ofBytes? bytes = some minedTransaction) ∧
      minedTransaction.isCoinbase = true ∧
      ((getDeposit minedHash 0).runOn (minedSession minedHash "")).1 =
        .ok (some (minedRecord minedHash "", minedDeposit false)) ∧
      (minedRecord "" "0101").txid ≠ minedHash ∧
      ((getDeposit minedHash 0).runOn (minedSession "" "0101")).1 =
        .ok (some (minedRecord "" "0101", minedDeposit true)) :=
  ⟨⟨_, decode_minedRecord minedHash ""⟩, by decide, getDeposit_mined minedHash "", by decide,
    getDeposit_mined "" "0101"⟩

end Mined

end Custody.Node
