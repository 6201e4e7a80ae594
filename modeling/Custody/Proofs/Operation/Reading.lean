import Custody.Proofs.Operation
import Custody.Proofs.Text.Base64

/-! # Operations that are read

Reading is exact: it takes a form whose fields have at most 255 bytes, and what follows it. Writing
takes fewer operations, as its fields have at most 200 bytes. So an operation that was read is
written as the bytes that it was read from, unless one of its fields is too large to be written. An
operation that can be written has a memo, and is read from it, whatever padding follows.
-/

namespace Custody.Operation

variable {op : Operation} {bytes key taken rest : Bytes} {name : String}

section Read

theorem take_eq_ok_iff {n : Nat} :
    take name n bytes = .ok (taken, rest) ↔ taken.length = n ∧ bytes = taken ++ rest := by
  rw [← Bytes.split?_eq_some_iff, take]
  split
  · rename_i parts split
    rw [split, Except.ok.injEq, Option.some.injEq]
  · rename_i short
    simp [short]

theorem takeByte_eq_ok_iff {b : UInt8} :
    takeByte name bytes = .ok (b, rest) ↔ bytes = b :: rest := by
  cases bytes <;> simp [takeByte]

/-- A field is read from its form, if its length fits a byte. -/
theorem takeField_eq_ok_iff :
    takeField name bytes = .ok (taken, rest) ↔
      taken.length < 256 ∧ bytes = field taken ++ rest := by
  simp only [takeField, Except.bind_eq_ok_iff, Prod.exists, takeByte_eq_ok_iff, take_eq_ok_iff]
  constructor
  · rintro ⟨size, _, rfl, length, rfl⟩
    refine ⟨length ▸ size.toNat_lt, ?_⟩
    rw [field, length, UInt8.ofNat_toNat]
    rfl
  · rintro ⟨small, rfl⟩
    refine ⟨UInt8.ofNat taken.length, taken ++ rest, rfl, ?_, rfl⟩
    rw [UInt8.toNat_ofNat', Nat.mod_eq_of_lt small]

theorem takeId_eq_ok_iff {id : Uuid} :
    takeId bytes = .ok (id, rest) ↔ bytes = id.bytes ++ rest := by
  have split_iff : Bytes.split? 16 bytes = some (id.bytes, rest) ↔ bytes = id.bytes ++ rest := by
    rw [Bytes.split?_eq_some_iff]
    exact and_iff_right id.size
  rw [← split_iff, takeId]
  split
  · rename_i found left split
    simp only [Except.ok.injEq, split, Option.some.injEq, Prod.mk.injEq]
    exact and_congr_left fun _ => ⟨congrArg Uuid.bytes, fun same => by cases id; cases same; rfl⟩
  · rename_i short
    simp [short]

/-- An operation is read from the form of its key, with what follows it, if its fields have lengths
that fit a byte. -/
theorem read_eq_ok_iff :
    read bytes = .ok (op, rest) ↔
      ∃ key, Hex.encode key = op.publicKey ∧ key.length < 256 ∧ op.extra.length < 256 ∧
        bytes = op.form key ++ rest := by
  simp only [read, Except.bind_eq_ok_iff, Prod.exists, takeId_eq_ok_iff, takeByte_eq_ok_iff,
    takeField_eq_ok_iff]
  constructor
  · rintro ⟨id, _, rfl, kind, _, rfl, curve, _, rfl, key, _, ⟨shortKey, rfl⟩, extra, _,
      ⟨shortExtra, rfl⟩, done⟩
    cases done
    refine ⟨key, rfl, shortKey, shortExtra, ?_⟩
    simp only [form, List.append_assoc, List.cons_append]
  · rintro ⟨key, spelled, shortKey, shortExtra, rfl⟩
    refine ⟨op.id, _, ?_, op.kind, _, rfl, op.curve, _, rfl, key, _, ⟨shortKey, rfl⟩, op.extra,
      rest, ⟨shortExtra, rfl⟩, ?_⟩
    · simp only [form, List.append_assoc, List.cons_append]
    · rw [spelled]
      rfl

end Read

/-- What writing answers for an operation whose key is some bytes: the first field that is too
large, or else the form. -/
theorem encode_eq (spelled : Hex.encode key = op.publicKey) :
    op.encode =
      if 200 < key.length then .error (.fieldTooLarge "public key" key.length 200)
      else if 200 < op.extra.length then .error (.fieldTooLarge "extra" op.extra.length 200)
      else .ok (op.form key) := by
  have known : publicBytes op.publicKey = .ok key := publicBytes_eq_ok_iff.mpr spelled
  have fields : op.encode = (do
      let key ← encodeField "public key" key
      let extra ← encodeField "extra" op.extra
      return op.id.bytes ++ op.kind :: op.curve :: key ++ extra) := by
    rw [encode, known]
    rfl
  rw [fields, encodeField, encodeField, maxField]
  by_cases largeKey : 200 < key.length
  · simp only [largeKey, ↓reduceIte]
    rfl
  · by_cases largeExtra : 200 < op.extra.length
    all_goals
      simp only [largeKey, largeExtra, ↓reduceIte]
      rfl

/-- What is read as an operation begins with the bytes that it is read from, and the operation is
written as those bytes when both of its fields have at most 200 bytes. Fields of up to 255 bytes are
read, though; with a larger one than 200 the operation cannot be written, and the failure names the
first such field. -/
theorem encode_of_decode (decoded : decode bytes = .ok op) :
    ∃ consumed rest, bytes = consumed ++ rest ∧ read bytes = .ok (op, rest) ∧
      op.publicKey.length / 2 < 256 ∧ op.extra.length < 256 ∧
      op.encode =
        if 200 < op.publicKey.length / 2 then
          .error (.fieldTooLarge "public key" (op.publicKey.length / 2) 200)
        else if 200 < op.extra.length then .error (.fieldTooLarge "extra" op.extra.length 200)
        else .ok consumed := by
  obtain ⟨⟨found, rest⟩, taken, same⟩ := Except.map_eq_ok_iff.mp decoded
  obtain rfl : found = op := same
  obtain ⟨key, spelled, shortKey, shortExtra, whole⟩ := read_eq_ok_iff.mp taken
  have size := length_key spelled
  rw [size]
  exact ⟨_, rest, whole, taken, shortKey, shortExtra, encode_eq spelled⟩

theorem encode_of_decode_approval :
    decode (approval.form [0x02, 0x25, 0xae, 0x1a] ++ [0x09]) = .ok approval ∧
      ∃ consumed rest, approval.form [0x02, 0x25, 0xae, 0x1a] ++ [0x09] = consumed ++ rest ∧
        approval.encode = .ok consumed := by
  have taken : read (approval.form [0x02, 0x25, 0xae, 0x1a] ++ [0x09]) = .ok (approval, [0x09]) :=
    read_eq_ok_iff.mpr ⟨_, by decide, by decide, by decide, rfl⟩
  have decoded : decode (approval.form [0x02, 0x25, 0xae, 0x1a] ++ [0x09]) = .ok approval :=
    Except.map_eq_ok_iff.mpr ⟨_, taken, rfl⟩
  obtain ⟨consumed, rest, whole, _, _, _, written⟩ := encode_of_decode decoded
  exact ⟨decoded, consumed, rest, whole, written⟩

/-- An operation whose extra data has one byte more than can be written. -/
def oversized : Operation where
  id := Uuid.nil
  kind := 0
  curve := 0
  publicKey := ""
  extra := List.replicate 201 0

/-- The oversized operation is read, though it cannot be written. -/
theorem decode_oversized :
    decode (List.replicate 19 0 ++ 201 :: List.replicate 201 0) = .ok oversized ∧
      oversized.encode = .error (.fieldTooLarge "extra" 201 200) := by
  have spelled : Hex.encode [] = oversized.publicKey := rfl
  have size : oversized.extra.length = 201 := List.length_replicate
  have whole : oversized.form [] = List.replicate 19 0 ++ 201 :: List.replicate 201 0 := by
    rw [form, field, field, size]
    rfl
  have taken : read (List.replicate 19 0 ++ 201 :: List.replicate 201 0) = .ok (oversized, []) :=
    read_eq_ok_iff.mpr ⟨[], spelled, by decide, by rw [size]; decide, by
      rw [whole, List.append_nil]⟩
  refine ⟨Except.map_eq_ok_iff.mpr ⟨_, taken, rfl⟩, ?_⟩
  rw [encode_eq spelled, size]
  rfl

section Memo

variable {memo : String}

theorem encodeMemo_eq_ok_iff :
    op.encodeMemo = .ok memo ↔ ∃ bytes, op.encode = .ok bytes ∧ Base64.encode bytes = memo :=
  Except.map_eq_ok_iff

theorem exists_encodeMemo_iff : (∃ memo, op.encodeMemo = .ok memo) ↔ op.Encodable := by
  rw [← exists_encode_iff]
  simp only [encodeMemo_eq_ok_iff]
  exact ⟨fun ⟨_, bytes, written, _⟩ => ⟨bytes, written⟩,
    fun ⟨bytes, written⟩ => ⟨_, bytes, written, rfl⟩⟩

/-- An operation is read from its memo and any padding behind it. -/
theorem decodeMemo_append_padding (written : op.encodeMemo = .ok memo) (padding : Nat) :
    decodeMemo (memo ++ String.ofList (List.replicate padding '=')) = .ok op := by
  obtain ⟨_, encoded, rfl⟩ := encodeMemo_eq_ok_iff.mp written
  obtain ⟨key, spelled, short, shortExtra, rfl⟩ := encode_eq_ok_iff.mp encoded
  have read := decode_form spelled short shortExtra []
  rw [List.append_nil] at read
  rw [decodeMemo, Blank.trimEnd_append_replicate (Base64.pad_not_mem_encode _),
    Base64.decode?_encode]
  exact read

end Memo

end Custody.Operation
