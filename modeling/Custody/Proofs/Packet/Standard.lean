import Custody.Packet.Standard
import Custody.Proofs.Packet.Signing

/-! # Packets that the standard keeps

Other software reads a packet map by map and writes each map in its own form and order. A packet
that carries nothing beside its typed fields is written as the same bytes if its signatures are in
form, and is not read at all if one of them is not.
-/

namespace Custody.Packet

open Bytes Secp256k1

section List

variable {α β : Type} {read? : α → Option β} {items : List α}

theorem mapM_eq_some {value : α → β} (reads : ∀ item ∈ items, read? item = some (value item)) :
    items.mapM read? = some (items.map value) := by
  induction items with
  | nil => rfl
  | cons item items ih =>
    obtain ⟨here, later⟩ := List.forall_mem_cons.mp reads
    rw [List.mapM_cons, here, ih later]
    rfl

theorem mapM_eq_none {item : α} (member : item ∈ items) (refused : read? item = none) :
    items.mapM read? = none := by
  induction items with
  | nil => cases member
  | cons head items ih =>
    rw [List.mapM_cons]
    rcases List.mem_cons.mp member with rfl | later
    · rw [refused]
      rfl
    · rw [ih later]
      cases read? head <;> rfl

end List

namespace StandardEntry

variable {rule? : UInt8 → Option Rule} {map : KeyMap} {order : Bytes → List Bytes}

theorem read?_cons {keyType : UInt8} {rule : Rule} (known : rule? keyType = some rule)
    (data value : Bytes) :
    read? rule? (keyType :: data, value) = (rule data value).map fun content =>
      ⟨[keyType] :: content.order, keyType :: content.data, content.value⟩ := by
  simp only [read?, known]

/-- An entry that belongs behind all others is placed there. -/
theorem place?_of_forall_lt {entry : StandardEntry} {done : List StandardEntry}
    (behind : ∀ other ∈ done, other.order < entry.order) :
    entry.place? done = some (done ++ [entry]) := by
  induction done with
  | nil => rfl
  | cons head done ih =>
    obtain ⟨here, later⟩ := List.forall_mem_cons.mp behind
    have notBefore : ¬ entry.order < head.order := List.lt_asymm here
    have notSame : entry.order ≠ head.order := fun same => List.lt_irrefl _ (same ▸ here)
    rw [place?, if_neg notBefore, if_neg notSame, ih later]
    rfl

/-- An entry as it is, at its place. -/
def keep (order : Bytes → List Bytes) (entry : Bytes × Bytes) : StandardEntry :=
  ⟨order entry.1, entry.1, entry.2⟩

/-- Whether the standard keeps the entries of a map, in their order. -/
structure Kept (rule? : UInt8 → Option Rule) (order : Bytes → List Bytes) (map : KeyMap) :
    Prop where
  read : ∀ entry ∈ map.entries, read? rule? entry = some (keep order entry)
  ascending : ∀ a ∈ map.entries, ∀ b ∈ map.entries, a.1 < b.1 → order a.1 < order b.1

/-- A map is read entry by entry, and each entry finds its place at the end. -/
theorem Kept.readMap? (kept : Kept rule? order map) :
    readMap? rule? map = some (map.entries.map (keep order)) := by
  have behind (done rest : List (Bytes × Bytes)) (whole : done ++ rest = map.entries) :
      rest.foldlM (fun done entry => (read? rule? entry).bind (·.place? done))
        (done.map (keep order)) = some (map.entries.map (keep order)) := by
    induction rest generalizing done with
    | nil => rw [← whole, List.append_nil]; rfl
    | cons entry rest ih =>
      have among (other : Bytes × Bytes) (member : other ∈ done ++ entry :: rest) :
          other ∈ map.entries := whole ▸ member
      have sorted := whole ▸ map.ascending
      have before : ∀ other ∈ done.map (keep order), other.order < (keep order entry).order := by
        refine List.forall_mem_map.mpr fun other member => ?_
        exact kept.ascending other (among other (by simp [member])) entry (among entry (by simp))
          ((List.pairwise_append.mp sorted).2.2 other member entry List.mem_cons_self)
      rw [List.foldlM_cons, kept.read entry (among entry (by simp)), Option.bind_some,
        place?_of_forall_lt before]
      have next := ih (done ++ [entry]) (by rw [List.append_assoc]; exact whole)
      rwa [List.map_append] at next
  exact behind [] map.entries rfl

theorem writeMap_map_keep (map : KeyMap) : writeMap (map.entries.map (keep order)) = map.encode := by
  rw [writeMap, List.flatMap_map]
  rfl

/-- A map with an entry that is not read is not read. -/
theorem readMap?_eq_none {entry : Bytes × Bytes} (member : entry ∈ map.entries)
    (refused : read? rule? entry = none) : readMap? rule? map = none := by
  rw [readMap?]
  generalize map.entries = entries at member
  generalize ([] : List StandardEntry) = done
  induction entries generalizing done with
  | nil => cases member
  | cons head entries ih =>
    rw [List.foldlM_cons]
    rcases List.mem_cons.mp member with rfl | later
    · rw [refused]
      rfl
    · cases placed : (read? rule? head).bind (·.place? done) with
      | none => rfl
      | some next => exact ih later next

end StandardEntry

section Signature

/-- A signature without a sighash type is out of form: no byte of it can be spared. -/
theorem signature_der (signature : Signature) : Field.signature signature.der = none := by
  rw [Field.signature]
  cases last : signature.der.getLast? with
  | none => rfl
  | some sighashType =>
    have whole : signature.der.dropLast ++ [sighashType] = signature.der :=
      List.dropLast_append_getLast? _ last
    have refused : Signature.ofDer? signature.der.dropLast = none := by
      rw [Option.eq_none_iff_forall_ne_some]
      intro shorter read
      have none := Signature.ofDer?_append read (List.cons_ne_nil sighashType [])
      rw [whole, Signature.ofDer?_der] at none
      cases none
    simp only [refused, Option.map_none, ite_self]

/-- A signature with a sighash type behind it is in form. -/
theorem signature_der_append (signature : Signature) {sighashType : UInt8}
    (known : Field.sighashTypes.contains sighashType = true) :
    Field.signature (signature.der ++ [sighashType]) = some (signature.der ++ [sighashType]) := by
  rw [Field.signature, List.getLast?_concat]
  simp only [known, if_true, List.dropLast_concat, Signature.ofDer?_der, Option.map_some]

/-- Whether a signature is in form, under a compressed key. -/
structure InForm (publicKey signature : Bytes) : Prop where
  signer : ∃ key : PublicKey, key.bytes = publicKey
  signature : Field.signature signature = some signature

theorem InForm.signedBy {publicKey signature : Bytes} (inForm : InForm publicKey signature) :
    Field.signedBy publicKey signature = some ⟨[1 :: publicKey], publicKey, signature⟩ := by
  obtain ⟨⟨key, rfl⟩, held⟩ := inForm
  simp only [Field.signedBy, decode?_bytes, PublicKey.length_bytes, held, Option.bind_eq_bind,
    Option.bind_some]
  rfl

theorem signedBy_eq_none {publicKey signature : Bytes}
    (outOfForm : Field.signature signature = none) : Field.signedBy publicKey signature = none := by
  simp [Field.signedBy, outOfForm]

end Signature

section Fields

open InputFields StandardEntry

variable {fields : InputFields} {key value : Bytes}

/-- Where an input's typed values stand in the standard: by key type, and signatures by their keys,
behind those by keys that are not compressed. -/
def inputOrder : Bytes → List Bytes
  | [] => []
  | keyType :: data =>
    if keyType = signatureKey then [[keyType], 1 :: data] else [[keyType]]

/-- Typed values are read as they are. -/
theorem read?_of_typed (utxo : ∀ output ∈ fields.witnessUtxo, output.script.length < 2 ^ 64)
    (inForm : ∀ publicKey signature,
      fields.partialSignatures.get? publicKey = some signature → InForm publicKey signature)
    (typed : fields.Typed key value) :
    read? Field.inputRule? (key, value) = some (keep inputOrder (key, value)) := by
  have single {check : Bytes → Bool} {value : Bytes} (passes : check value = true) :
      Field.single (Field.keep check) [] value = some ⟨[], [], value⟩ := by
    simp [Field.single, Field.keep, passes]
  cases typed with
  | utxo known =>
    have read := TxOut.ofBytes?_eq_some_iff.mpr ⟨utxo _ known, rfl⟩
    rw [read?_cons rfl, Field.output, single (Option.isSome_iff_exists.mpr ⟨_, read⟩)]
    rfl
  | signature known =>
    rw [read?_cons rfl, (inForm _ _ known).signedBy]
    rfl
  | sighash known =>
    rw [read?_cons rfl, Field.sized, single (by simp)]
    rfl
  | script known => rfl

/-- The key of a typed value is one byte, unless it is that of a signature. -/
private theorem shape_of_typed (typed : fields.Typed key value) :
    ∃ keyType data, key = keyType :: data ∧ (keyType = signatureKey ∨ data = []) := by
  cases typed with
  | utxo known => exact ⟨_, [], rfl, .inr rfl⟩
  | signature known => exact ⟨_, _, rfl, .inl rfl⟩
  | sighash known => exact ⟨_, [], rfl, .inr rfl⟩
  | script known => exact ⟨_, [], rfl, .inr rfl⟩

/-- The standard orders typed values as their keys do. -/
theorem inputOrder_lt {key' value' : Bytes} (typed : fields.Typed key value)
    (typed' : fields.Typed key' value') (before : key < key') :
    inputOrder key < inputOrder key' := by
  obtain ⟨keyType, data, rfl, _⟩ := shape_of_typed typed
  obtain ⟨keyType', data', rfl, shape⟩ := shape_of_typed typed'
  rcases List.cons_lt_cons_iff.mp before with below | ⟨rfl, later⟩
  · have lead {rest rest' : List Bytes} : [keyType] :: rest < [keyType'] :: rest' :=
      List.cons_lt_cons_iff.mpr (.inl (List.cons_lt_cons_iff.mpr (.inl below)))
    simp only [inputOrder]
    split <;> split <;> exact lead
  · rcases shape with rfl | rfl
    · rw [inputOrder, inputOrder, if_pos rfl, if_pos rfl]
      exact List.cons_lt_cons_iff.mpr (.inr ⟨rfl, List.cons_lt_cons_iff.mpr
        (.inl (List.cons_lt_cons_iff.mpr (.inr ⟨rfl, later⟩)))⟩)
    · exact absurd later (List.not_lt_nil data)

/-- Fields that carry nothing are kept if their signatures are in form. -/
theorem kept_toMap (wellFormed : fields.WellFormed) (carriesNone : fields.unknown = KeyMap.empty)
    (inForm : ∀ publicKey signature,
      fields.partialSignatures.get? publicKey = some signature → InForm publicKey signature) :
    Kept Field.inputRule? inputOrder fields.toMap := by
  have typed : ∀ entry ∈ fields.toMap.entries, fields.Typed entry.1 entry.2 := by
    intro entry member
    rw [← KeyMap.get?_eq_some_iff, get?_toMap, carriesNone, KeyMap.get?_empty, Option.or_none]
      at member
    exact typed_of_typed? member
  exact ⟨fun entry member => read?_of_typed wellFormed.utxo inForm (typed entry member),
    fun a memberA b memberB => inputOrder_lt (typed a memberA) (typed b memberB)⟩

/-- Fields with a signature that is out of form are not read. -/
theorem readMap?_toMap_eq_none {publicKey signature : Bytes}
    (held : fields.partialSignatures.get? publicKey = some signature)
    (outOfForm : Field.signature signature = none) :
    readMap? Field.inputRule? fields.toMap = none := by
  have member := mem_entries_toMap_of_signature (KeyMap.get?_eq_some_iff.mp held)
  refine readMap?_eq_none member ?_
  rw [read?_cons rfl, signedBy_eq_none outOfForm]
  rfl

end Fields

section Maps

variable {maps : List KeyMap}

/-- A written map is read back. -/
theorem readMap_encode {map : KeyMap} (readable : AllReadable map) (rest : Bytes) :
    readMap KeyMap.empty (map.encode ++ rest) = .ok (map, rest) :=
  readMap_empty_eq_ok_iff.mpr ⟨readable, _, .refl _, rfl⟩

/-- Written maps are read back, one after the other. -/
theorem readMaps_encode (readable : ∀ map ∈ maps, AllReadable map) (rest : Bytes) :
    readMaps maps.length [] (maps.flatMap KeyMap.encode ++ rest) = .ok (maps, rest) := by
  refine readMaps_eq_ok_iff.mpr ⟨maps, rfl, rfl, readable, maps.map (·.entries), ?_, ?_⟩
  · rw [List.forall₂_map_left_iff]
    exact List.forall₂_same.mpr fun map _ => .refl _
  · rw [List.flatMap_map]
    rfl

end Maps

theorem plainTransaction?_encode {tx : Transaction} (writable : tx.Writable)
    (unsigned : tx.Unsigned) (spends : tx.inputs ≠ []) : plainTransaction? tx.encode = some tx := by
  obtain ⟨_, _, version, inputs, tail⟩ :=
    Transaction.exists_read_encodePlain writable unsigned.hasWitness_eq_false []
  rw [List.append_nil] at version
  have checked : (checkUnsigned tx).toBool = true := by
    rw [checkUnsigned_eq_ok_iff.mpr unsigned]
    rfl
  simp only [plainTransaction?, unsigned.encode_eq spends, version, Option.bind_eq_bind,
    Option.bind_some, inputs, Int32.toInt32_toUInt32, tail, checked, if_true]
  rfl

variable {packet : Packet}

/-- What other software makes of a written packet: it reads and writes each map on its own. -/
theorem WellFormed.standardForm?_serialize (wellFormed : packet.WellFormed)
    (spends : packet.unsignedTx.inputs ≠ []) :
    standardForm? packet.serialize = (do
      let globals ← StandardEntry.readMap? Field.globalRule? packet.globals
      let inputs ← packet.inputs.mapM fun fields =>
        StandardEntry.readMap? Field.inputRule? fields.toMap
      let outputs ← packet.outputs.mapM (StandardEntry.readMap? Field.outputRule?)
      return magic ++ CompactSize.sized transactionKey
        ++ CompactSize.sized packet.unsignedTx.encodePlain
        ++ StandardEntry.writeMap (globals.filter (·.key ≠ versionKey))
        ++ inputs.flatMap StandardEntry.writeMap ++ outputs.flatMap StandardEntry.writeMap) := by
  obtain ⟨globals, inputs, outputs⟩ := forall_mem_maps.mp wellFormed.readable
  have rest : packet.serialize.drop magic.length =
      (packet.globals.insert transactionKey packet.unsignedTx.encode).encode ++
        ((packet.inputs.map InputFields.toMap).flatMap KeyMap.encode ++
          (packet.outputs.flatMap KeyMap.encode ++ [])) := by
    rw [serialize, List.append_assoc, List.append_assoc, List.drop_left, List.flatMap_map,
      List.append_nil]
  have readable : ∀ map ∈ packet.inputs.map InputFields.toMap, AllReadable map :=
    List.forall_mem_map.mpr inputs
  have readInputs := readMaps_encode readable (packet.outputs.flatMap KeyMap.encode ++ [])
  rw [List.length_map, wellFormed.inputMaps] at readInputs
  have readOutputs := readMaps_encode outputs []
  rw [wellFormed.outputMaps] at readOutputs
  have held : (packet.globals.insert transactionKey packet.unsignedTx.encode).get?
      transactionKey = some packet.unsignedTx.encode := by
    rw [KeyMap.get?_insert, if_pos rfl]
  rw [standardForm?, rest, readMap_encode globals]
  simp only [Except.toOption, Option.bind_eq_bind, Option.bind_some, held,
    plainTransaction?_encode wellFormed.writable wellFormed.unsigned spends, readInputs,
    readOutputs, KeyMap.erase_insert wellFormed.transaction, List.mapM_map]
  rfl

/-- Whether a packet carries nothing beside its typed fields. -/
structure CarriesNothing (packet : Packet) : Prop where
  globals : packet.globals = KeyMap.empty
  inputs : ∀ fields ∈ packet.inputs, fields.unknown = KeyMap.empty
  outputs : ∀ map ∈ packet.outputs, map = KeyMap.empty

theorem carriesNothing_bare : packet.bare.CarriesNothing ↔ packet.CarriesNothing := by
  constructor
  · rintro ⟨globals, inputs, outputs⟩
    exact ⟨globals, List.forall_mem_map.mp inputs, outputs⟩
  · rintro ⟨globals, inputs, outputs⟩
    exact ⟨globals, List.forall_mem_map.mpr inputs, outputs⟩

theorem CarriesNothing.of_bare {start : Packet} (carriesNothing : start.CarriesNothing)
    (same : packet.bare = start.bare) : packet.CarriesNothing :=
  carriesNothing_bare.mp (same ▸ carriesNothing_bare.mpr carriesNothing)

theorem WellFormed.toStandard_eq (wellFormed : packet.WellFormed) :
    packet.toStandard =
      match standardForm? packet.serialize with
      | some bytes => .ok bytes
      | none =>
        .error (.packet s!"packet {packet.hash} is not a bitcoin psbt: an entry is out of form") := by
  rw [toStandard, wellFormed.marshal]
  rfl

/-- A packet with a signature that is out of form is not read by other software. -/
theorem WellFormed.toStandard_eq_error (wellFormed : packet.WellFormed)
    (spends : packet.unsignedTx.inputs ≠ []) {index : Nat} {publicKey signature : Bytes}
    (held : packet.partialSignature? index publicKey = some signature)
    (outOfForm : Field.signature signature = none) :
    packet.toStandard =
      .error (.packet s!"packet {packet.hash} is not a bitcoin psbt: an entry is out of form") := by
  obtain ⟨fields, found, value⟩ := Option.bind_eq_some_iff.mp held
  have refused : (packet.inputs.mapM fun fields =>
      StandardEntry.readMap? Field.inputRule? fields.toMap) = none :=
    mapM_eq_none (List.mem_of_getElem? found) (readMap?_toMap_eq_none value outOfForm)
  rw [wellFormed.toStandard_eq, wellFormed.standardForm?_serialize spends, refused]
  cases StandardEntry.readMap? Field.globalRule? packet.globals <;> rfl

/-- A packet that carries nothing and whose signatures are in form is written by other software as
it is. -/
theorem WellFormed.toStandard_eq_serialize (wellFormed : packet.WellFormed)
    (spends : packet.unsignedTx.inputs ≠ []) (carriesNothing : packet.CarriesNothing)
    (inForm : ∀ index publicKey signature,
      packet.partialSignature? index publicKey = some signature → InForm publicKey signature) :
    packet.toStandard = .ok packet.serialize := by
  have kept : ∀ fields ∈ packet.inputs,
      StandardEntry.readMap? Field.inputRule? fields.toMap =
        some (fields.toMap.entries.map (StandardEntry.keep inputOrder)) := by
    intro fields member
    obtain ⟨index, below, rfl⟩ := List.mem_iff_getElem.mp member
    refine (kept_toMap (wellFormed.fields _ member) (carriesNothing.inputs _ member)
      fun publicKey signature held => inForm index publicKey signature ?_).readMap?
    rw [partialSignature?, List.getElem?_eq_getElem below]
    exact held
  have empty : ∀ map ∈ packet.outputs,
      StandardEntry.readMap? Field.outputRule? map = some [] := by
    intro map member
    rw [carriesNothing.outputs map member]
    rfl
  have globals : StandardEntry.readMap? Field.globalRule? packet.globals = some [] := by
    rw [carriesNothing.globals]
    rfl
  have written : standardForm? packet.serialize = some packet.serialize := by
    have inputs : (packet.inputs.map fun fields =>
        fields.toMap.entries.map (StandardEntry.keep inputOrder)).flatMap
          StandardEntry.writeMap = packet.inputs.flatMap (·.toMap.encode) := by
      simp only [List.flatMap_map, StandardEntry.writeMap_map_keep]
    have outputs : (packet.outputs.map fun _ => []).flatMap StandardEntry.writeMap =
        packet.outputs.flatMap KeyMap.encode := by
      rw [List.flatMap_map]
      refine List.flatMap_congr fun map member => ?_
      rw [carriesNothing.outputs map member]
      rfl
    have transaction : (packet.globals.insert transactionKey packet.unsignedTx.encode).encode =
        CompactSize.sized transactionKey ++ CompactSize.sized packet.unsignedTx.encodePlain ++
          StandardEntry.writeMap [] := by
      rw [carriesNothing.globals, wellFormed.unsigned.encode_eq spends]
      simp [KeyMap.encode, KeyMap.insert, KeyMap.place, KeyMap.empty, StandardEntry.writeMap]
    rw [wellFormed.standardForm?_serialize spends, globals, mapM_eq_some kept, mapM_eq_some empty,
      serialize, transaction, ← inputs, ← outputs]
    simp
  rw [wellFormed.toStandard_eq, written]

/-- A packet that carries nothing and whose signatures are in form passes through other software. -/
theorem WellFormed.exists_toStandard (wellFormed : packet.WellFormed)
    (spends : packet.unsignedTx.inputs ≠ []) (carriesNothing : packet.CarriesNothing)
    (inForm : ∀ index publicKey signature,
      packet.partialSignature? index publicKey = some signature → InForm publicKey signature) :
    ∃ raw, packet.marshal = .ok raw ∧ packet.toStandard = .ok raw ∧
      packet.throughStandard = .ok packet := by
  have same := wellFormed.toStandard_eq_serialize spends carriesNothing inForm
  refine ⟨_, wellFormed.marshal, same, ?_⟩
  rw [throughStandard, same]
  change (parse packet.serialize).mapError Fault.toError = _
  rw [Except.mapError_eq_ok_iff, wellFormed.parse_serialize]

end Custody.Packet
