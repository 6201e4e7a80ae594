import Custody.Host
import Custody.Proofs.Operation.Reading
import Custody.Proofs.Text.Uuid

/-! # Memos at the interface of the host

The host gives the identifier of an operation as a text, in any of its spellings. The memo keeps
the identifier and not how it was spelled: what is read from it has the written form, and that has
the same memo.
-/

namespace Custody

/-- The operation that a record is of, if its text spells the identifier. -/
def OperationRecord.operation (record : OperationRecord) (id : Uuid) : Operation :=
  ⟨id, record.kind, record.curve, record.publicKey, record.extra⟩

namespace Host

variable {record : OperationRecord} {memo : String} {uuid : Uuid}

theorem parseId_eq_ok_iff {id : String} : parseId id = .ok uuid ↔ id.toLower ∈ uuid.forms := by
  rw [← Uuid.parse?_eq_some_iff, parseId]
  split
  · rename_i found read
    rw [read, Except.ok.injEq, Option.some.injEq]
  · rename_i unread
    rw [unread]
    exact ⟨nofun, nofun⟩

theorem encodeOperation_eq_ok_iff :
    encodeOperation record = .ok memo ↔
      ∃ uuid : Uuid, record.id.toLower ∈ uuid.forms ∧
        (record.operation uuid).encodeMemo = .ok memo := by
  rw [encodeOperation, Except.bind_eq_ok_iff]
  simp only [parseId_eq_ok_iff, Except.mapError_eq_ok_iff, OperationRecord.operation]

theorem decodeOperation_of_decodeMemo {op : Operation} (read : Operation.decodeMemo memo = .ok op) :
    decodeOperation memo = .ok (recordOf op) := by
  rw [decodeOperation, read]

theorem recordOf_operation :
    recordOf (record.operation uuid) = { record with id := uuid.display } := rfl

/-- A record has a memo exactly when its text spells an identifier and the operation with this
identifier has a form: the key is spelled by an even number of at most 400 lowercase digits and the
extra data has at most 200 bytes. What is read from the memo, whatever padding follows it, is the
record with the identifier in its written form, and that record has the same memo. -/
theorem memo_respells (record : OperationRecord) :
    ((∃ memo, encodeOperation record = .ok memo) ↔
      ∃ uuid : Uuid, record.id.toLower ∈ uuid.forms ∧ (record.operation uuid).Encodable) ∧
    ∀ memo, encodeOperation record = .ok memo →
      ∃ uuid : Uuid, record.id.toLower ∈ uuid.forms ∧
        (∀ padding, decodeOperation (memo ++ String.ofList (List.replicate padding '=')) =
          .ok { record with id := uuid.display }) ∧
        encodeOperation { record with id := uuid.display } = .ok memo := by
  constructor
  · simp only [encodeOperation_eq_ok_iff, ← Operation.exists_encodeMemo_iff]
    exact ⟨fun ⟨memo, uuid, spelled, made⟩ => ⟨uuid, spelled, memo, made⟩,
      fun ⟨uuid, spelled, memo, made⟩ => ⟨memo, uuid, spelled, made⟩⟩
  · intro memo written
    obtain ⟨uuid, spelled, made⟩ := encodeOperation_eq_ok_iff.mp written
    have shown := Uuid.parse?_eq_some_iff.mp (Uuid.parse?_display uuid)
    refine ⟨uuid, spelled, fun padding => ?_, ?_⟩
    · rw [← recordOf_operation]
      exact decodeOperation_of_decodeMemo (Operation.decodeMemo_append_padding made padding)
    · exact encodeOperation_eq_ok_iff.mpr ⟨uuid, shown, made⟩

/-- The approval of a transaction, its identifier in capital letters and behind the prefix. -/
def approval : OperationRecord where
  id := "URN:UUID:E3621407-7280-4913-B671-B2C9C4D2DDB2"
  kind := 113
  curve := 1
  publicKey := "0225ae1a"
  extra := [1, 2, 3]

theorem memo_respells_approval :
    ∃ memo, encodeOperation approval = .ok memo ∧
      decodeOperation (memo ++ "==") =
        .ok { approval with id := "e3621407-7280-4913-b671-b2c9c4d2ddb2" } ∧
      encodeOperation { approval with id := "e3621407-7280-4913-b671-b2c9c4d2ddb2" } =
        .ok memo := by
  have named : Uuid.parse? approval.id = some Operation.approval.id := by decide
  have spelled := Uuid.parse?_eq_some_iff.mp named
  obtain ⟨exact, respelled⟩ := memo_respells approval
  have digits : ∀ c ∈ approval.publicKey.toList, c ∈ Hex.lowerDigits :=
    show approval.publicKey.toList ⊆ Hex.lowerDigits by decide
  obtain ⟨memo, made⟩ := exact.mpr
    ⟨Operation.approval.id, spelled, ⟨by decide, by decide, digits, by decide⟩⟩
  obtain ⟨uuid, same, read, again⟩ := respelled memo made
  have unique : uuid = Operation.approval.id :=
    Option.some.inj ((Uuid.parse?_eq_some_iff.mpr same).symm.trans named)
  have written : Operation.approval.id.display = "e3621407-7280-4913-b671-b2c9c4d2ddb2" := by
    decide
  rw [unique, written] at again
  have padded := read 2
  rw [unique, written] at padded
  exact ⟨memo, made, padded, again⟩

end Host

end Custody
