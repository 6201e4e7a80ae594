import Custody.Operation.Proposal
import Custody.Proofs.Operation.Reading

/-! # Proposals that can be sent

The extra data of a proposal has a size that is known from what is proposed. A proposal under a
readable key has a memo exactly when that size is at most the 200 bytes of a field, and is then read
from it. Making the proposal checks no more of the size than that the number of owners fits a byte.
-/

namespace Custody

namespace Operation

variable {op : Operation}

/-- The identifiers of owners are those that the owners spell, one after the other. -/
theorem ownerBytes_eq_ok_iff {owners : List String} {ids : Bytes} :
    ownerBytes owners = .ok ids ↔
      ∃ uuids : List Uuid, owners.map Uuid.parse? = uuids.map some ∧
        uuids.flatMap Uuid.bytes = ids := by
  induction owners generalizing ids with
  | nil =>
    simp [ownerBytes]
  | cons owner owners ih =>
    rw [ownerBytes]
    split
    · rename_i unread
      refine ⟨fun done => (nomatch done), ?_⟩
      rintro ⟨uuids, spelled, _⟩
      cases uuids <;> simp [unread] at spelled
    · rename_i uuid read
      rw [Except.map_eq_ok_iff]
      constructor
      · rintro ⟨later, done, rfl⟩
        obtain ⟨uuids, spelled, rfl⟩ := ih.mp done
        exact ⟨uuid :: uuids, by simp [read, spelled], rfl⟩
      · rintro ⟨uuids, spelled, rfl⟩
        cases uuids with
        | nil => simp at spelled
        | cons first uuids =>
          simp only [List.map_cons, List.cons.injEq, read, Option.some.injEq] at spelled
          obtain ⟨rfl, spelled⟩ := spelled
          exact ⟨_, ih.mpr ⟨uuids, spelled, rfl⟩, rfl⟩

theorem length_ownerBytes {owners : List String} {ids : Bytes}
    (read : ownerBytes owners = .ok ids) : ids.length = 16 * owners.length := by
  obtain ⟨uuids, spelled, rfl⟩ := ownerBytes_eq_ok_iff.mp read
  have count : owners.length = uuids.length := by simpa using congrArg List.length spelled
  simp only [List.length_flatMap, Uuid.size, List.map_const', List.sum_replicate_nat, count,
    Nat.mul_comm]

/-- An account can be proposed for at most 255 owners that all spell identifiers. -/
theorem proposeAccount_eq_ok_iff {id : Uuid} {publicKey : String} {owners : List String}
    {threshold : UInt8} {chain : Chain} {timeLock : UInt16} :
    proposeAccount id publicKey owners threshold chain timeLock = .ok op ↔
      owners.length ≤ 255 ∧ ∃ ids, ownerBytes owners = .ok ids ∧
        op = {
          id
          kind := chain.actionBase
          curve := chain.curve.code
          publicKey := lowercase publicKey
          extra := Bytes.ofNatBE 2 timeLock.toNat ++
            threshold :: UInt8.ofNat owners.length :: ids } := by
  have kind : chain.actionCode .proposeAccount = .ok chain.actionBase := by
    cases chain <;> rfl
  constructor
  · intro proposed
    obtain ⟨_, found, checked⟩ := Except.bind_eq_ok_iff.mp proposed
    obtain rfl := Except.ok.inj (kind.symm.trans found)
    obtain ⟨few, made⟩ := Except.check_eq_ok_iff.mp checked
    obtain ⟨_, filled, done⟩ := Except.bind_eq_ok_iff.mp made
    obtain ⟨ids, read, rfl⟩ := Except.map_eq_ok_iff.mp filled
    cases done
    exact ⟨Nat.not_lt.mp few, ids, read, rfl⟩
  · rintro ⟨few, ids, read, rfl⟩
    have filled : accountExtra owners threshold timeLock = .ok (Bytes.ofNatBE 2 timeLock.toNat ++
        threshold :: UInt8.ofNat owners.length :: ids) :=
      Except.map_eq_ok_iff.mpr ⟨ids, read, rfl⟩
    exact Except.bind_eq_ok_iff.mpr ⟨_, kind, Except.check_eq_ok_iff.mpr
      ⟨Nat.not_lt.mpr few, Except.bind_eq_ok_iff.mpr ⟨_, filled, rfl⟩⟩⟩

/-- A batch can be proposed on all chains. -/
theorem proposeBatch_eq (id : Uuid) (publicKey : String) (type : UInt8) (head : String)
    (hash : Bytes) (chain : Chain) :
    proposeBatch id publicKey type head hash chain = .ok {
      id
      kind := chain.actionBase + Action.proposeTransaction.offset
      curve := chain.curve.code
      publicKey := lowercase publicKey
      extra := transactionExtra type head hash } := by
  cases chain <;> rfl

theorem length_transactionExtra (type : UInt8) (head : String) (tail : Bytes) :
    (transactionExtra type head tail).length = 17 + tail.length := by
  simp only [transactionExtra, List.length_append, List.length_cons, Uuid.size]

/-- The key of a proposal is spelled by lowercase digits, if the given key is spelled by digits. -/
theorem exists_encode_lowercase {text : String} {key : Bytes} (read : Hex.decode text = .ok key) :
    ∃ bytes, Hex.encode bytes = lowercase text ∧ bytes.length = key.length := by
  obtain ⟨length, digits⟩ := Hex.exists_decode_iff.mp ⟨key, read, rfl⟩
  refine Hex.exists_encode_iff.mpr ⟨?_, ?_⟩
  · rw [lowercase, String.length_ofList, List.length_map, String.length_toList, length]
  · intro c member
    rw [lowercase, String.toList_ofList] at member
    obtain ⟨d, held, rfl⟩ := List.mem_map.mp member
    exact Hex.toLower_mem_lowerDigits (digits d held)

end Operation

/-- What a client proposes. -/
inductive Proposal where
  | account (owners : List String) (threshold : UInt8) (timeLock : UInt16)
  | transaction (type : UInt8) (head destination : String)
  | batch (type : UInt8) (head : String) (hash : Bytes)

namespace Proposal

/-- The operation that proposes something under a key on a chain. -/
def operation (id : Uuid) (publicKey : String) (chain : Chain) :
    Proposal → Except OperationError Operation
  | account owners threshold timeLock =>
    Operation.proposeAccount id publicKey owners threshold chain timeLock
  | transaction type head destination =>
    Operation.proposeTransaction id publicKey type head destination chain
  | batch type head hash => Operation.proposeBatch id publicKey type head hash chain

/-- The number of bytes of the extra data that hold a proposal. -/
def size : Proposal → Nat
  | account owners _ _ => 4 + 16 * owners.length
  | transaction _ _ destination => 17 + (Bytes.ofText destination).length
  | batch _ _ hash => 17 + hash.length

open Operation

variable {id : Uuid} {publicKey : String} {chain : Chain} {proposal : Proposal} {op : Operation}
  {key : Bytes}

private theorem fields_of_proposeBatch {type : UInt8} {head : String} {hash : Bytes}
    (proposed : proposeBatch id publicKey type head hash chain = .ok op) :
    op.publicKey = lowercase publicKey ∧ op.extra.length = 17 + hash.length := by
  cases (proposeBatch_eq ..).symm.trans proposed
  exact ⟨rfl, length_transactionExtra type head hash⟩

/-- A proposal keeps the key in lower case, and its extra data has the size of the proposal. -/
theorem fields_of_operation (proposed : proposal.operation id publicKey chain = .ok op) :
    op.publicKey = lowercase publicKey ∧ op.extra.length = proposal.size := by
  cases proposal with
  | account owners threshold timeLock =>
    obtain ⟨_, ids, read, rfl⟩ := proposeAccount_eq_ok_iff.mp proposed
    have counted := length_ownerBytes read
    refine ⟨rfl, ?_⟩
    simp only [size, List.length_append, List.length_cons, Bytes.length_ofNatBE, counted]
    omega
  | transaction type head destination => exact fields_of_proposeBatch proposed
  | batch type head hash => exact fields_of_proposeBatch proposed

section Memo

variable (proposed : proposal.operation id publicKey chain = .ok op)
  (read : Hex.decode publicKey = .ok key) (short : key.length ≤ 200)

include proposed read short

/-- Only the size of the extra data decides whether a proposal under a short key can be written. -/
theorem exists_encode_eq :
    ∃ bytes, op.encode =
      if 200 < proposal.size then .error (.fieldTooLarge "extra" proposal.size 200)
      else .ok bytes := by
  obtain ⟨lowered, size⟩ := fields_of_operation proposed
  obtain ⟨bytes, spelled, length⟩ := exists_encode_lowercase read
  rw [← lowered] at spelled
  refine ⟨op.form bytes, ?_⟩
  rw [encode_eq spelled, length, if_neg (Nat.not_lt.mpr short), size]

theorem exists_memo (fits : proposal.size ≤ 200) :
    ∃ memo, op.encodeMemo = .ok memo ∧ decodeMemo memo = .ok op := by
  obtain ⟨bytes, written⟩ := exists_encode_eq proposed read short
  rw [if_neg (Nat.not_lt.mpr fits)] at written
  have made := encodeMemo_eq_ok_iff.mpr ⟨bytes, written, rfl⟩
  have decoded := decodeMemo_append_padding made 0
  rw [List.replicate_zero, String.ofList_nil, String.append_empty] at decoded
  exact ⟨_, made, decoded⟩

theorem encodeMemo_eq_error (large : 200 < proposal.size) :
    op.encodeMemo = .error (.fieldTooLarge "extra" proposal.size 200) := by
  obtain ⟨bytes, written⟩ := exists_encode_eq proposed read short
  rw [if_pos large] at written
  rw [encodeMemo, written]
  rfl

end Memo

/-- A proposal under a key of at most 200 bytes, in digits of either case, has a memo when its extra
data fits a field, and is read from it. When it does not fit, writing fails and says by how much. -/
theorem memo_exact (proposed : proposal.operation id publicKey chain = .ok op)
    (read : Hex.decode publicKey = .ok key) (short : key.length ≤ 200) :
    op.extra.length = proposal.size ∧
      (proposal.size ≤ 200 →
        ∃ memo, op.encodeMemo = .ok memo ∧ decodeMemo memo = .ok op) ∧
      (200 < proposal.size →
        op.encodeMemo = .error (.fieldTooLarge "extra" proposal.size 200)) :=
  ⟨(fields_of_operation proposed).2, exists_memo proposed read short,
    encodeMemo_eq_error proposed read short⟩

/-- An account of some owners, all the same, who lock it for a day. -/
def shared (owners : Nat) : Proposal :=
  account (List.replicate owners "c9a9a719-4679-4057-bcf0-98945ed95a81") 1 144

/-- The identifier of the owners of a shared account. -/
def sharer : Uuid :=
  ⟨[0xc9, 0xa9, 0xa7, 0x19, 0x46, 0x79, 0x40, 0x57, 0xbc, 0xf0, 0x98, 0x94, 0x5e, 0xd9, 0x5a, 0x81],
    rfl⟩

theorem operation_shared {owners : Nat} (few : owners ≤ 255) :
    ∃ op, (shared owners).operation Uuid.nil "02AB" .bitcoin = .ok op := by
  have named : ownerBytes (List.replicate owners "c9a9a719-4679-4057-bcf0-98945ed95a81") =
      .ok ((List.replicate owners sharer).flatMap Uuid.bytes) := by
    refine ownerBytes_eq_ok_iff.mpr ⟨_, ?_, rfl⟩
    have spelled : Uuid.parse? "c9a9a719-4679-4057-bcf0-98945ed95a81" = some sharer := by
      decide
    rw [List.map_replicate, List.map_replicate, spelled]
  exact ⟨_, proposeAccount_eq_ok_iff.mpr
    ⟨by rwa [List.length_replicate], _, named, rfl⟩⟩

theorem memo_exact_shared :
    ∃ op, (shared 12).operation Uuid.nil "02AB" .bitcoin = .ok op ∧ op.extra.length = 196 ∧
      ∃ memo, op.encodeMemo = .ok memo ∧ decodeMemo memo = .ok op := by
  obtain ⟨op, proposed⟩ := operation_shared (show 12 ≤ 255 by decide)
  have read : Hex.decode "02AB" = .ok [0x02, 0xab] := by decide
  obtain ⟨size, sent, _⟩ := memo_exact proposed read (by decide)
  exact ⟨op, proposed, size, sent (by decide)⟩

/-- An account of 13 owners can be proposed, but the proposal has no memo. -/
theorem shared_without_memo :
    ∃ op, (shared 13).operation Uuid.nil "02AB" .bitcoin = .ok op ∧
      op.encodeMemo = .error (.fieldTooLarge "extra" 212 200) := by
  obtain ⟨op, proposed⟩ := operation_shared (show 13 ≤ 255 by decide)
  have read : Hex.decode "02AB" = .ok [0x02, 0xab] := by decide
  exact ⟨op, proposed, encodeMemo_eq_error proposed read (by decide) (by decide)⟩

end Proposal

end Custody
