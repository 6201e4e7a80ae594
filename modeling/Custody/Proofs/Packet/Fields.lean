import Custody.Packet.Codec
import Custody.Proofs.Except
import Custody.Proofs.KeyMap
import Custody.Proofs.Transaction

/-! # Fields of an input as a map

The fields of an input and the map that they are written as determine each other: a map is read as
some well-formed fields exactly when it is what they are written as. Among well-formed fields no
carried entry has the key of a typed field.
-/

namespace Custody

open Bytes

namespace InputFields

/-- Whether a byte starts the keys of a typed field. -/
def Reserved (keyType : UInt8) : Prop :=
  keyType = utxoKey ∨ keyType = signatureKey ∨ keyType = sighashKey ∨ keyType = scriptKey

instance (keyType : UInt8) : Decidable (Reserved keyType) :=
  inferInstanceAs (Decidable (_ ∨ _))

/-- Whether fields are ones that are read from some map. -/
structure WellFormed (fields : InputFields) : Prop where
  /-- No carried entry has the key of a typed field. -/
  carried : ∀ entry ∈ fields.unknown.entries, ∀ keyType ∈ entry.1.head?, ¬ Reserved keyType
  /-- Signatures stand under encodings of points. -/
  signers : ∀ entry ∈ fields.partialSignatures.entries, (Secp256k1.Point.decode? entry.1).isSome
  /-- No signature is empty. -/
  signatures : ∀ entry ∈ fields.partialSignatures.entries, entry.2 ≠ []
  /-- The output that is spent has a wire form. -/
  utxo : ∀ output ∈ fields.witnessUtxo, output.script.length < 2 ^ 64

/-- The value that a typed field puts under a key. -/
def typed? (fields : InputFields) : Bytes → Option Bytes
  | [] => none
  | keyType :: data =>
    if keyType = signatureKey then fields.partialSignatures.get? data
    else if data ≠ [] then none
    else if keyType = utxoKey then fields.witnessUtxo.map TxOut.encode
    else if keyType = sighashKey then
      fields.sighashType.map fun value => ofNatLE 4 value.toNat
    else if keyType = scriptKey then fields.witnessScript
    else none

/-- A typed value and the key that it stands under. -/
inductive Typed (fields : InputFields) : Bytes → Bytes → Prop
  | utxo {output : TxOut} (known : fields.witnessUtxo = some output) :
      Typed fields [utxoKey] output.encode
  | signature {publicKey signature : Bytes}
      (known : fields.partialSignatures.get? publicKey = some signature) :
      Typed fields (signatureKey :: publicKey) signature
  | sighash {value : UInt32} (known : fields.sighashType = some value) :
      Typed fields [sighashKey] (ofNatLE 4 value.toNat)
  | script {script : Script} (known : fields.witnessScript = some script) :
      Typed fields [scriptKey] script

theorem typed_of_typed? {fields : InputFields} {key value : Bytes}
    (typed : fields.typed? key = some value) : fields.Typed key value := by
  cases key with
  | nil => cases typed
  | cons keyType data =>
    simp only [typed?] at typed
    split at typed
    · rename_i signature
      exact signature ▸ .signature typed
    · split at typed
      · cases typed
      · rename_i keyed
        obtain rfl : data = [] := Decidable.not_not.mp keyed
        split at typed
        · rename_i utxo
          obtain ⟨output, known, rfl⟩ := Option.map_eq_some_iff.mp typed
          exact utxo ▸ .utxo known
        · split at typed
          · rename_i sighash
            obtain ⟨sighashType, known, rfl⟩ := Option.map_eq_some_iff.mp typed
            exact sighash ▸ .sighash known
          · split at typed
            · rename_i script
              exact script ▸ .script typed
            · cases typed

private theorem get?_putOptional (keyType : UInt8) (value? : Option Bytes) (map : KeyMap)
    (key : Bytes) :
    (putOptional keyType value? map).get? key =
      (if key = [keyType] then value? else none).or (map.get? key) := by
  cases value? with
  | none => simp [putOptional]
  | some value =>
    rw [putOptional, KeyMap.get?_insert]
    by_cases same : key = [keyType] <;> simp [same]

/-- In the map of some fields, typed fields stand over carried entries. -/
theorem get?_toMap (fields : InputFields) (key : Bytes) :
    fields.toMap.get? key = (fields.typed? key).or (fields.unknown.get? key) := by
  rw [toMap, get?_putOptional, get?_putOptional]
  cases key with
  | nil =>
    have other (data : Bytes) : [] ≠ signatureKey :: data := List.cons_ne_nil _ _ |>.symm
    rw [KeyMap.get?_foldl_insert_of_ne other, get?_putOptional]
    simp [typed?]
  | cons keyType data =>
    by_cases signature : keyType = signatureKey
    · subst signature
      have injective : Function.Injective (signatureKey :: · : Bytes → Bytes) :=
        fun _ _ same => (List.cons.inj same).2
      rw [KeyMap.get?_foldl_insert fields.partialSignatures.keys_nodup injective,
        get?_putOptional]
      have script : signatureKey ≠ scriptKey := by decide
      have sighash : signatureKey ≠ sighashKey := by decide
      have utxo : signatureKey ≠ utxoKey := by decide
      simp [typed?, KeyMap.get?, script, sighash, utxo]
    · have other (key : Bytes) : keyType :: data ≠ signatureKey :: key := by simp [signature]
      rw [KeyMap.get?_foldl_insert_of_ne other, get?_putOptional, typed?, if_neg signature]
      by_cases keyed : data = []
      · subst keyed
        have apart : utxoKey ≠ sighashKey ∧ utxoKey ≠ scriptKey ∧ sighashKey ≠ scriptKey := by
          decide
        by_cases utxo : keyType = utxoKey
        · simp [utxo, apart]
        · by_cases sighash : keyType = sighashKey
          · simp [sighash, apart.2.2, apart.1.symm]
          · by_cases script : keyType = scriptKey
            · simp [script, apart.2.1.symm, apart.2.2.symm]
            · simp [utxo, sighash, script]
      · simp [keyed]

/-- Fields that carry nothing and are not signed have only the entries of single typed values. -/
theorem mem_entries_toMap {fields : InputFields} (carriesNone : fields.unknown = KeyMap.empty)
    (unsigned : fields.partialSignatures = KeyMap.empty) {entry : Bytes × Bytes}
    (member : entry ∈ fields.toMap.entries) :
    (∃ keyType, entry.1 = [keyType]) ∧
      (fields.witnessUtxo.map TxOut.encode = some entry.2 ∨
        (fields.sighashType.map fun value => ofNatLE 4 value.toNat) = some entry.2 ∨
        fields.witnessScript = some entry.2) := by
  obtain ⟨key, value⟩ := entry
  rw [← KeyMap.get?_eq_some_iff, get?_toMap, carriesNone, KeyMap.get?_empty, Option.or_none]
    at member
  cases typed_of_typed? member with
  | utxo known => exact ⟨⟨_, rfl⟩, .inl (by rw [known]; rfl)⟩
  | signature known =>
    rw [unsigned] at known
    cases known
  | sighash known => exact ⟨⟨_, rfl⟩, .inr (.inl (by rw [known]; rfl))⟩
  | script known => exact ⟨⟨_, rfl⟩, .inr (.inr known)⟩

theorem WellFormed.unknown_of_reserved {fields : InputFields} (wellFormed : fields.WellFormed)
    {keyType : UInt8} (reserved : Reserved keyType) (data : Bytes) :
    fields.unknown.get? (keyType :: data) = none := by
  rw [Option.eq_none_iff_forall_ne_some]
  intro value present
  exact wellFormed.carried _ (KeyMap.get?_eq_some_iff.mp present) keyType rfl reserved

/-- Under a key whose first byte starts typed keys there is the value of a typed field, if any. -/
theorem WellFormed.get?_toMap_of_reserved {fields : InputFields} (wellFormed : fields.WellFormed)
    {keyType : UInt8} (reserved : Reserved keyType) (data : Bytes) :
    fields.toMap.get? (keyType :: data) = fields.typed? (keyType :: data) := by
  rw [get?_toMap, wellFormed.unknown_of_reserved reserved, Option.or_none]

theorem typed?_of_not_reserved (fields : InputFields) {keyType : UInt8}
    (free : ¬ Reserved keyType) (data : Bytes) : fields.typed? (keyType :: data) = none := by
  simp only [Reserved, not_or] at free
  simp [typed?, free]

private theorem sighash_inj {a b : Option UInt32}
    (same : (a.map fun value => ofNatLE 4 value.toNat) = b.map fun value => ofNatLE 4 value.toNat) :
    a = b := by
  refine Option.map_injective ?_ same
  intro x y equal
  exact reads_readUInt32.write_inj trivial trivial equal

private theorem utxo_inj {a b : Option TxOut}
    (writableA : ∀ output ∈ a, output.script.length < 2 ^ 64)
    (writableB : ∀ output ∈ b, output.script.length < 2 ^ 64)
    (same : a.map TxOut.encode = b.map TxOut.encode) : a = b := by
  cases a with
  | none => cases b with
    | none => rfl
    | some y => simp at same
  | some x => cases b with
    | none => simp at same
    | some y =>
      rw [Option.map_some, Option.map_some, Option.some.injEq] at same
      exact congrArg some (TxOut.reads_decode.write_inj (writableA x rfl) (writableB y rfl) same)

/-- Well-formed fields are determined by the map that they are written as. -/
theorem WellFormed.toMap_inj {a b : InputFields} (wellFormedA : a.WellFormed)
    (wellFormedB : b.WellFormed) (same : a.toMap = b.toMap) : a = b := by
  have typed (keyType : UInt8) (reserved : Reserved keyType) (data : Bytes) :
      a.typed? (keyType :: data) = b.typed? (keyType :: data) := by
    rw [← wellFormedA.get?_toMap_of_reserved reserved, same,
      wellFormedB.get?_toMap_of_reserved reserved]
  have signatures : a.partialSignatures = b.partialSignatures :=
    KeyMap.eq_of_get? fun key => by simpa [typed?] using typed signatureKey (by decide) key
  have utxo : a.witnessUtxo = b.witnessUtxo := by
    refine utxo_inj wellFormedA.utxo wellFormedB.utxo ?_
    exact typed utxoKey (by decide) []
  have sighash : a.sighashType = b.sighashType :=
    sighash_inj (typed sighashKey (by decide) [])
  have script : a.witnessScript = b.witnessScript :=
    typed scriptKey (by decide) []
  have unknown : a.unknown = b.unknown := by
    apply KeyMap.eq_of_get?
    intro key
    have values := congrArg (·.get? key) same
    simp only [get?_toMap] at values
    cases key with
    | nil => simpa [typed?] using values
    | cons keyType data =>
      by_cases reserved : Reserved keyType
      · rw [wellFormedA.unknown_of_reserved reserved, wellFormedB.unknown_of_reserved reserved]
      · simpa [typed?_of_not_reserved _ reserved] using values
  cases a
  cases b
  simp_all

end InputFields

namespace Packet

open InputFields

variable {index : Nat} {fields next : InputFields} {key value : Bytes}

private theorem toMap_eq_insert (typedThere : next.typed? key = some value ∨
      next.typed? key = none ∧ next.unknown.get? key = some value)
    (typedElsewhere : ∀ other, other ≠ key → next.typed? other = fields.typed? other)
    (unknownElsewhere : ∀ other, other ≠ key →
      next.unknown.get? other = fields.unknown.get? other) :
    next.toMap = fields.toMap.insert key value := by
  apply KeyMap.eq_of_get?
  intro other
  rw [KeyMap.get?_insert]
  split
  · rename_i same
    rw [same, get?_toMap]
    rcases typedThere with typed | ⟨typed, carried⟩
    · rw [typed, Option.some_or]
    · rw [typed, Option.none_or, carried]
  · rename_i differ
    rw [get?_toMap, get?_toMap, typedElsewhere other differ, unknownElsewhere other differ]

private theorem toMap_carry (free : fields.typed? key = none) :
    { fields with unknown := fields.unknown.insert key value }.toMap =
      fields.toMap.insert key value := by
  refine toMap_eq_insert (.inr ⟨free, ?_⟩) (fun _ _ => rfl) fun other differ => ?_
  · rw [KeyMap.get?_insert, if_pos rfl]
  · rw [KeyMap.get?_insert, if_neg differ]

/-- A signature is an entry under the key of its signer. -/
theorem toMap_sign (data : Bytes) :
    (fields.sign data value).toMap = fields.toMap.insert (signatureKey :: data) value := by
  refine toMap_eq_insert (.inl ?_) (fun other differ => ?_) fun _ _ => rfl
  · simp only [typed?, InputFields.sign, KeyMap.get?_insert, ↓reduceIte]
  · cases other with
    | nil => rfl
    | cons keyType rest =>
      simp only [typed?, InputFields.sign, KeyMap.get?_insert]
      by_cases signature : keyType = signatureKey
      · have apart : rest ≠ data := fun same => differ (by rw [signature, same])
        simp only [signature, apart, ↓reduceIte]
      · simp only [signature, ↓reduceIte]

/-- Each typed field is a value under its own key only. -/
private theorem typed?_congr {a b : InputFields}
    (signatures : a.partialSignatures = b.partialSignatures)
    (utxo : key = [utxoKey] → a.witnessUtxo = b.witnessUtxo)
    (sighash : key = [sighashKey] → a.sighashType = b.sighashType)
    (script : key = [scriptKey] → a.witnessScript = b.witnessScript) :
    a.typed? key = b.typed? key := by
  cases key with
  | nil => rfl
  | cons keyType data =>
    simp only [typed?, signatures]
    split
    · rfl
    · split
      · rfl
      · rename_i keyed
        obtain rfl : data = [] := not_not.mp keyed
        split
        · rename_i same
          rw [utxo (by rw [same])]
        · split
          · rename_i same
            rw [sighash (by rw [same])]
          · split
            · rename_i same
              rw [script (by rw [same])]
            · rfl

/-- How an entry is taken into some fields: as a typed field if its key is that of one, and as it is
if its key starts otherwise. -/
inductive Takes (fields : InputFields) (value : Bytes) : Bytes → InputFields → Prop
  | signature {data : Bytes} (point : (Secp256k1.Point.decode? data).isSome = true)
      (signed : value ≠ []) : Takes fields value (signatureKey :: data) (fields.sign data value)
  | utxo {output : TxOut} (written : TxOut.ofBytes? value = some output) :
      Takes fields value [utxoKey] { fields with witnessUtxo := some output }
  | sighash (size : value.length = 4) :
      Takes fields value [sighashKey]
        { fields with sighashType := some (UInt32.ofNat (toNatLE value)) }
  | script : Takes fields value [scriptKey] { fields with witnessScript := some value }
  | carried {key : Bytes} (free : ∀ keyType ∈ key.head?, ¬ Reserved keyType) :
      Takes fields value key { fields with unknown := fields.unknown.insert key value }

private theorem takes_of_readField (read : readField index fields (key, value) = .ok next) :
    Takes fields value key next := by
  unfold readField at read
  cases key with
  | nil =>
    cases read
    exact .carried fun _ member => nomatch member
  | cons keyType data =>
    simp only [Bool.and_eq_true, Bool.or_eq_true, decide_eq_true_eq, List.isEmpty_iff] at read
    split at read
    · rename_i signature
      subst signature
      split at read
      · cases read
      · rename_i point
        split at read
        · cases read
        · rename_i signed
          cases read
          exact .signature (Option.isSome_iff_ne_none.mpr (by simpa using point)) signed
    · rename_i notSignature
      split at read
      · rename_i utxo
        obtain ⟨rfl, rfl⟩ := utxo
        split at read
        · rename_i output found
          cases read
          exact .utxo found
        · cases read
      · split at read
        · rename_i sighash
          obtain ⟨rfl, rfl⟩ := sighash
          split at read
          · rename_i four
            cases read
            exact .sighash four
          · cases read
        · split at read
          · rename_i script
            obtain ⟨rfl, rfl⟩ := script
            cases read
            exact .script
          · split at read
            · cases read
            · rename_i free
              cases read
              simp only [not_or] at free
              refine .carried fun other same => ?_
              obtain rfl : keyType = other := by simpa using same
              simp only [Reserved, not_or]
              exact ⟨free.1.1, notSignature, free.1.2, free.2⟩

/-- An entry is taken in one of these ways, or not at all. -/
theorem readField_eq_ok_iff :
    readField index fields (key, value) = .ok next ↔ Takes fields value key next := by
  refine ⟨takes_of_readField, fun takes => ?_⟩
  cases takes with
  | signature point signed =>
    simp [readField, Option.isSome_iff_ne_none.mp point, signed]
  | utxo written => simp [readField, written, utxoKey, signatureKey]
  | sighash size => simp [readField, size, sighashKey, utxoKey, signatureKey]
  | script => simp [readField, scriptKey, sighashKey, utxoKey, signatureKey]
  | carried free =>
    cases key with
    | nil => rfl
    | cons keyType data =>
      have other := free keyType rfl
      simp only [Reserved, not_or] at other
      simp [readField, other]

/-- Taking an entry into some fields sets its key in their map. -/
theorem Takes.toMap (takes : Takes fields value key next) :
    next.toMap = fields.toMap.insert key value := by
  cases takes with
  | signature _ _ => exact toMap_sign _
  | utxo written =>
    obtain ⟨_, rfl⟩ := TxOut.ofBytes?_eq_some_iff.mp written
    exact toMap_eq_insert (.inl rfl)
      (fun _ differ => typed?_congr rfl (absurd · differ) (fun _ => rfl) fun _ => rfl)
      fun _ _ => rfl
  | sighash size =>
    have written : ofNatLE 4 (UInt32.ofNat (toNatLE value)).toNat = value := by
      have fits := toNatLE_lt value
      rw [size] at fits
      rw [UInt32.toNat_ofNat_of_lt' fits, ← size, ofNatLE_toNatLE]
    exact toMap_eq_insert (.inl (congrArg some written))
      (fun _ differ => typed?_congr rfl (fun _ => rfl) (absurd · differ) fun _ => rfl)
      fun _ _ => rfl
  | script =>
    exact toMap_eq_insert (.inl rfl)
      (fun _ differ => typed?_congr rfl (fun _ => rfl) (fun _ => rfl) (absurd · differ))
      fun _ _ => rfl
  | carried free =>
    apply toMap_carry
    cases key with
    | nil => rfl
    | cons keyType data => exact typed?_of_not_reserved fields (free keyType rfl) data

/-- Taking an entry into well-formed fields leaves them well-formed. -/
theorem Takes.wellFormed (takes : Takes fields value key next) (wellFormed : fields.WellFormed) :
    next.WellFormed := by
  cases takes with
  | signature point signed =>
    refine { wellFormed with signers := fun entry member => ?_,
                             signatures := fun entry member => ?_ }
    · rcases KeyMap.mem_place member with rfl | old
      · exact point
      · exact wellFormed.signers entry old
    · rcases KeyMap.mem_place member with rfl | old
      · exact signed
      · exact wellFormed.signatures entry old
  | utxo written =>
    obtain ⟨writable, _⟩ := TxOut.ofBytes?_eq_some_iff.mp written
    exact { wellFormed with utxo := fun _ same => Option.some.inj same ▸ writable }
  | sighash _ => exact { wellFormed with }
  | script => exact { wellFormed with }
  | carried free =>
    refine { wellFormed with carried := fun entry member => ?_ }
    rcases KeyMap.mem_place member with rfl | old
    · exact free
    · exact wellFormed.carried entry old

/-- Every entry of the map of well-formed fields can be taken into any fields. -/
theorem exists_takes (wellFormed : fields.WellFormed) (other : InputFields)
    (present : fields.toMap.get? key = some value) : ∃ next, Takes other value key next := by
  cases key with
  | nil => exact ⟨_, .carried fun _ member => nomatch member⟩
  | cons keyType data =>
    by_cases reserved : Reserved keyType
    · rw [wellFormed.get?_toMap_of_reserved reserved] at present
      cases typed_of_typed? present with
      | utxo known =>
        exact ⟨_, .utxo (TxOut.ofBytes?_eq_some_iff.mpr ⟨wellFormed.utxo _ known, rfl⟩)⟩
      | signature known =>
        have member := KeyMap.get?_eq_some_iff.mp known
        exact ⟨_, .signature (wellFormed.signers _ member) (wellFormed.signatures _ member)⟩
      | sighash known => exact ⟨_, .sighash (length_ofNatLE _ _)⟩
      | script known => exact ⟨_, .script⟩
    · refine ⟨_, .carried fun keyType' same => ?_⟩
      obtain rfl : keyType = keyType' := by simpa using same
      exact reserved

theorem foldlM_readField {entries : List (Bytes × Bytes)} (wellFormed : fields.WellFormed)
    (read : entries.foldlM (readField index) fields = .ok next) :
    next.WellFormed ∧ next.toMap =
      entries.foldl (fun map entry => map.insert entry.1 entry.2) fields.toMap := by
  induction entries generalizing fields with
  | nil =>
    cases read
    exact ⟨wellFormed, rfl⟩
  | cons entry entries ih =>
    rw [List.foldlM_cons] at read
    obtain ⟨middle, first, rest⟩ := Except.bind_eq_ok_iff.mp read
    have takes := readField_eq_ok_iff.mp first
    have step := ih (takes.wellFormed wellFormed) rest
    rwa [takes.toMap] at step

/-- A map is read as some fields exactly when they are well-formed and written as the map. -/
theorem readFields_eq_ok_iff {map : KeyMap} :
    readFields index map = .ok fields ↔ fields.WellFormed ∧ fields.toMap = map := by
  have empty : InputFields.WellFormed {} := by
    constructor <;> simp [KeyMap.empty]
  have sound {fields : InputFields} (read : readFields index map = .ok fields) :
      fields.WellFormed ∧ fields.toMap = map := by
    obtain ⟨wellFormed, written⟩ := foldlM_readField empty read
    exact ⟨wellFormed, written.trans (KeyMap.foldl_insert_entries map)⟩
  refine ⟨sound, ?_⟩
  rintro ⟨wellFormed, rfl⟩
  have complete (entries : List (Bytes × Bytes)) (start : InputFields)
      (among : ∀ entry ∈ entries, entry ∈ fields.toMap.entries) :
      ∃ last, entries.foldlM (readField index) start = .ok last := by
    induction entries generalizing start with
    | nil => exact ⟨start, rfl⟩
    | cons entry entries ih =>
      obtain ⟨here, later⟩ := List.forall_mem_cons.mp among
      obtain ⟨middle, takes⟩ := exists_takes wellFormed start
        (KeyMap.get?_eq_some_iff.mpr here)
      rw [List.foldlM_cons, readField_eq_ok_iff.mpr takes]
      exact ih middle later
  obtain ⟨last, read⟩ := complete fields.toMap.entries {} fun _ member => member
  obtain ⟨wellFormedLast, same⟩ := sound read
  rw [wellFormedLast.toMap_inj wellFormed same] at read
  exact read

end Packet

end Custody
