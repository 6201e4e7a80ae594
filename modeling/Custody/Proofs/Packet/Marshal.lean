import Custody.Proofs.Packet.RoundTrip

/-! # What the check on written packets sees

`marshal` reads the bytes of a packet back and compares bytes, not packets. It therefore passes
every packet that is written as some packet that is read, and the bytes are then read as that one.
It is the packet itself exactly when its maps are as many as its transaction says and none of its
entries stands in another's place; of the packets that are not, some pass the check.
-/

namespace Custody.Packet

variable {packet written : Packet} {raw : Bytes}

/-- The check passes exactly when the packet is written as one that is read back. -/
theorem marshal_eq_ok_iff :
    packet.marshal = .ok raw ↔
      packet.serialize = raw ∧
        ∃ written : Packet, written.WellFormed ∧ written.serialize = raw := by
  simp only [marshal]
  constructor
  · intro marshalled
    split at marshalled
    · cases marshalled
    · rename_i reread read
      obtain ⟨wellFormed, _⟩ := parse_eq_ok_iff.mp read
      split at marshalled
      · rename_i same
        cases marshalled
        exact ⟨rfl, reread, wellFormed, same⟩
      · cases marshalled
  · rintro ⟨rfl, written, wellFormed, same⟩
    rw [← same, wellFormed.parse_serialize]
    exact if_pos rfl

/-- Whether the maps of a packet are as many as its transaction says, and no entry stands in the
place of another or of the end of a map. -/
structure Shaped (packet : Packet) : Prop where
  inputMaps : packet.inputs.length = packet.unsignedTx.inputs.length
  outputMaps : packet.outputs.length = packet.unsignedTx.outputs.length
  /-- No map has an empty key, which would be read as the end of the map. -/
  keyed : ∀ entries ∈ packet.layout.maps, ∀ entry ∈ entries, entry.1 ≠ []
  /-- No other entry has the key of the transaction. -/
  transaction : packet.globals.get? transactionKey = none
  /-- No carried entry of an input has the key of a typed field. -/
  carried : ∀ fields ∈ packet.inputs, ∀ entry ∈ fields.unknown.entries,
    ∀ keyType ∈ entry.1.head?, ¬ InputFields.Reserved keyType

theorem WellFormed.shaped (wellFormed : packet.WellFormed) : packet.Shaped where
  inputMaps := wellFormed.inputMaps
  outputMaps := wellFormed.outputMaps
  keyed := wellFormed.keyed
  transaction := wellFormed.transaction
  carried := wellFormed.carried

section Shaped

variable (shaped : packet.Shaped) (original : written.WellFormed)
  (same : packet.serialize = written.serialize)
include shaped original same

private theorem maps_eq : packet.layout.maps = written.layout.maps := by
  rw [serialize_eq_bytes, serialize_eq_bytes] at same
  exact flatMap_writeEntries_inj shaped.keyed original.readable (List.append_cancel_left same)

private theorem globals_eq :
    packet.globals.insert transactionKey packet.unsignedTx.encode =
      written.globals.insert transactionKey written.unsignedTx.encode :=
  KeyMap.eq_of_entries (List.cons.inj (maps_eq shaped original same)).1

/-- The transaction is short enough that none other is written like it. -/
private theorem unsignedTx_eq : packet.unsignedTx = written.unsignedTx := by
  have value := congrArg (·.get? transactionKey) (globals_eq shaped original same)
  simp only [KeyMap.get?_insert, ↓reduceIte, Option.some.injEq] at value
  have entry : (transactionKey, written.unsignedTx.encode) ∈ written.layout.globals := by
    rw [layout, ← KeyMap.get?_eq_some_iff, KeyMap.get?_insert, if_pos rfl]
  have fits : Fits written.unsignedTx.encode :=
    (original.fits _ List.mem_cons_self _ entry).2
  have short : packet.unsignedTx.encode.length ≤ TxIn.maxWitness := by
    unfold Fits maxEntry at fits
    unfold TxIn.maxWitness
    rw [value]
    omega
  exact Transaction.reads_decode.write_inj (Transaction.writable_of_length_le short)
    original.writable value

private theorem exists_toMap_eq {fields : InputFields} (member : fields ∈ packet.inputs) :
    ∃ fields' ∈ written.inputs, fields'.toMap = fields.toMap := by
  have behind := (List.cons.inj (maps_eq shaped original same)).2
  have counts : packet.layout.inputs.length = written.layout.inputs.length := by
    simp only [layout, List.length_map, shaped.inputMaps, original.inputMaps,
      unsignedTx_eq shaped original same]
  have inputs : packet.layout.inputs = written.layout.inputs := List.append_inj_left behind counts
  have among : fields.toMap.entries ∈ written.layout.inputs :=
    inputs ▸ List.mem_map_of_mem member
  obtain ⟨fields', member', equal⟩ := List.mem_map.mp among
  exact ⟨fields', member', KeyMap.eq_of_entries equal⟩

/-- Signatures are read from a map as they were put there. -/
private theorem exists_signature {fields : InputFields} (member : fields ∈ packet.inputs)
    {entry : Bytes × Bytes} (signature : entry ∈ fields.partialSignatures.entries) :
    ∃ fields' ∈ written.inputs, entry ∈ fields'.partialSignatures.entries := by
  obtain ⟨fields', member', equal⟩ := exists_toMap_eq shaped original same member
  have reserved : InputFields.Reserved InputFields.signatureKey := by decide
  have held : fields.toMap.get? (InputFields.signatureKey :: entry.1) = some entry.2 := by
    rw [InputFields.get?_toMap, InputFields.typed?, if_pos rfl,
      KeyMap.get?_eq_some_iff.mpr signature, Option.some_or]
  rw [← equal, (original.fields fields' member').get?_toMap_of_reserved reserved,
    InputFields.typed?, if_pos rfl] at held
  exact ⟨fields', member', KeyMap.get?_eq_some_iff.mp held⟩

/-- A shaped packet that is written as one that is read is read itself. -/
theorem Shaped.wellFormed : packet.WellFormed where
  unsigned := unsignedTx_eq shaped original same ▸ original.unsigned
  inputMaps := shaped.inputMaps
  outputMaps := shaped.outputMaps
  keyed := shaped.keyed
  transaction := shaped.transaction
  carried := shaped.carried
  signers := by
    intro fields member entry signature
    obtain ⟨fields', member', signature'⟩ := exists_signature shaped original same member signature
    exact original.signers fields' member' entry signature'
  signatures := by
    intro fields member entry signature
    obtain ⟨fields', member', signature'⟩ := exists_signature shaped original same member signature
    exact original.signatures fields' member' entry signature'
  fits := maps_eq shaped original same ▸ original.fits

end Shaped

/-- Bytes that pass the check are those of the packet, and they are read as the packet exactly when
it is shaped. -/
theorem parse_marshalled_iff_shaped (marshalled : packet.marshal = .ok raw) :
    raw = packet.serialize ∧ (parse raw = .ok packet ↔ packet.Shaped) := by
  obtain ⟨rfl, written, wellFormed, same⟩ := marshal_eq_ok_iff.mp marshalled
  refine ⟨rfl, fun read => (parse_eq_ok_iff.mp read).1.shaped, fun shaped => ?_⟩
  exact (shaped.wellFormed wellFormed same.symm).parse_serialize

theorem parse_marshalled_iff_shaped_carrying :
    carrying.marshal = .ok carrying.serialize ∧
      (parse carrying.serialize = .ok carrying ↔ carrying.Shaped) := by
  have written := wellFormed_carrying.marshal
  exact ⟨written, (parse_marshalled_iff_shaped written).2⟩

/-- A transaction that spends one output, which is not known, and pays nothing. -/
def spending : Transaction :=
  { Transaction.blank with inputs := [{ previous := ⟨Txid.zero, 0⟩ }] }

/-- A transaction that pays three outputs. -/
def paying : Transaction :=
  { Transaction.blank with outputs := List.replicate 3 ⟨0, []⟩ }

/-- A packet whose only map behind the global one stands with the outputs instead of the inputs. -/
def shifted : Packet :=
  { ofTransaction spending with inputs := [], outputs := [KeyMap.empty] }

/-- A packet with a second entry under the key of its transaction. -/
def shadowed : Packet :=
  { ofTransaction paying with globals := KeyMap.empty.insert transactionKey [0xAA] }

/-- A packet with one map in place of three. Its empty key and its empty value are written as ends
of maps are. -/
def terminated : Packet :=
  { ofTransaction paying with outputs := [KeyMap.empty.insert [] []] }

/-- The check passes packets that are not shaped. Their bytes are read as packets with other maps,
without the shadowed entry, and with maps in place of an entry. -/
theorem marshal_misread :
    (shifted.marshal = .ok (ofTransaction spending).serialize ∧
      parse (ofTransaction spending).serialize = .ok (ofTransaction spending) ∧
      shifted ≠ ofTransaction spending) ∧
    ∀ packet ∈ [shadowed, terminated],
      packet.marshal = .ok (ofTransaction paying).serialize ∧
        parse (ofTransaction paying).serialize = .ok (ofTransaction paying) ∧
        packet ≠ ofTransaction paying := by
  have spends : (ofTransaction spending).WellFormed := by
    constructor <;> decide
  have pays : (ofTransaction paying).WellFormed := by
    constructor <;> decide
  refine ⟨⟨marshal_eq_ok_iff.mpr ⟨by decide, _, spends, rfl⟩, spends.parse_serialize, by decide⟩,
    ?_⟩
  intro packet member
  have written : packet.serialize = (ofTransaction paying).serialize := by
    revert packet
    decide
  have other : packet ≠ ofTransaction paying := by
    revert packet
    decide
  exact ⟨marshal_eq_ok_iff.mpr ⟨written, _, pays, rfl⟩, pays.parse_serialize, other⟩

end Custody.Packet
