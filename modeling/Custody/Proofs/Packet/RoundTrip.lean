import Custody.Proofs.Except
import Custody.Proofs.Packet.Fields
import Custody.Proofs.Packet.Map
import Mathlib.Data.List.Forall2

/-! # Packets and their layouts

A layout lists the entries of a packet's maps in the order in which they are written. The bytes that
are read as a packet are those of the layouts that list the same entries in each map; among them the
packet is written as the one whose maps ascend.
-/

namespace Custody.Packet

open Bytes

/-- The entries of a packet's maps, in the order in which they are written. -/
structure Layout where
  globals : List (Bytes × Bytes)
  inputs : List (List (Bytes × Bytes))
  outputs : List (List (Bytes × Bytes))

namespace Layout

/-- The entries of all maps, map by map. -/
def maps (layout : Layout) : List (List (Bytes × Bytes)) :=
  layout.globals :: (layout.inputs ++ layout.outputs)

/-- The binary form of a packet of this layout. -/
def bytes (layout : Layout) : Bytes :=
  magic ++ layout.maps.flatMap KeyMap.writeEntries

/-- Whether two layouts list the same entries in each map. -/
structure Rearranges (layout original : Layout) : Prop where
  globals : layout.globals.Perm original.globals
  inputs : List.Forall₂ List.Perm layout.inputs original.inputs
  outputs : List.Forall₂ List.Perm layout.outputs original.outputs

/-- Whether every map lists its keys in ascending order. -/
def Ascending (layout : Layout) : Prop :=
  ∀ entries ∈ layout.maps, entries.Pairwise (·.1 < ·.1)

end Layout

/-- The layout in which a packet is written. -/
def layout (packet : Packet) : Layout where
  globals := (packet.globals.insert transactionKey packet.unsignedTx.encode).entries
  inputs := packet.inputs.map (·.toMap.entries)
  outputs := packet.outputs.map (·.entries)

theorem serialize_eq_bytes (packet : Packet) : packet.serialize = packet.layout.bytes := by
  simp only [serialize, Layout.bytes, Layout.maps, layout, KeyMap.encode_eq_writeEntries,
    List.flatMap_cons, List.flatMap_append, List.flatMap_map, List.append_assoc]
  rfl

/-- Whether a packet is one that is read from some bytes. -/
structure WellFormed (packet : Packet) : Prop where
  /-- No input of the transaction is signed. -/
  unsigned : packet.unsignedTx.Unsigned
  inputMaps : packet.inputs.length = packet.unsignedTx.inputs.length
  outputMaps : packet.outputs.length = packet.unsignedTx.outputs.length
  /-- No map has an empty key. -/
  keyed : ∀ entries ∈ packet.layout.maps, ∀ entry ∈ entries, entry.1 ≠ []
  /-- The transaction is not carried a second time. -/
  transaction : packet.globals.get? transactionKey = none
  /-- No carried entry of an input has the key of a typed field. -/
  carried : ∀ fields ∈ packet.inputs, ∀ entry ∈ fields.unknown.entries,
    ∀ keyType ∈ entry.1.head?, ¬ InputFields.Reserved keyType
  /-- Signatures stand under encodings of points. -/
  signers : ∀ fields ∈ packet.inputs, ∀ entry ∈ fields.partialSignatures.entries,
    (Secp256k1.Point.decode? entry.1).isSome
  /-- No signature is empty. -/
  signatures : ∀ fields ∈ packet.inputs, ∀ entry ∈ fields.partialSignatures.entries, entry.2 ≠ []
  /-- Keys and values are short enough to be read. -/
  fits : ∀ entries ∈ packet.layout.maps, ∀ entry ∈ entries, Fits entry.1 ∧ Fits entry.2

section Maps

/-- Whether bytes are the written forms of some maps, each with its entries in any order, with the
rest behind them. -/
def Lists (maps : List KeyMap) (bytes rest : Bytes) : Prop :=
  ∃ listings, List.Forall₂ (fun entries map => entries.Perm map.entries) listings maps ∧
    bytes = listings.flatMap KeyMap.writeEntries ++ rest

theorem lists_nil {bytes rest : Bytes} : Lists [] bytes rest ↔ bytes = rest := by
  simp [Lists]

theorem lists_cons {map : KeyMap} {maps : List KeyMap} {bytes rest : Bytes} :
    Lists (map :: maps) bytes rest ↔
      ∃ after,
        (∃ entries, entries.Perm map.entries ∧ bytes = KeyMap.writeEntries entries ++ after) ∧
          Lists maps after rest := by
  simp only [Lists, List.forall₂_cons_right_iff]
  constructor
  · rintro ⟨_, ⟨entries, listings, perm, all, rfl⟩, rfl⟩
    exact ⟨_, ⟨entries, perm, by rw [List.flatMap_cons, List.append_assoc]⟩, listings, all, rfl⟩
  · rintro ⟨_, ⟨entries, perm, rfl⟩, listings, all, rfl⟩
    exact ⟨_, ⟨entries, listings, perm, all, rfl⟩, by rw [List.flatMap_cons, List.append_assoc]⟩

/-- Whether every entry of a map can be read. -/
def AllReadable (map : KeyMap) : Prop :=
  ∀ entry ∈ map.entries, Readable entry

/-- Maps are read one after the other, each with its entries in any order. -/
theorem readMaps_eq_ok_iff {count : Nat} {done maps : List KeyMap} {bytes rest : Bytes} :
    readMaps count done bytes = .ok (maps, rest) ↔
      ∃ read, maps = done.reverse ++ read ∧ read.length = count ∧ (∀ map ∈ read, AllReadable map) ∧
        Lists read bytes rest := by
  induction count generalizing done bytes with
  | zero =>
    simp only [readMaps, List.length_eq_zero_iff]
    constructor
    · rintro same
      cases same
      exact ⟨[], by simp [lists_nil]⟩
    · rintro ⟨_, rfl, rfl, _, same⟩
      rw [lists_nil.mp same, List.append_nil]
  | succ count ih =>
    simp only [readMaps, Except.bind_eq_ok_iff, Prod.exists, readMap_empty_eq_ok_iff, ih]
    constructor
    · rintro ⟨map, after, ⟨readable, listed⟩, read, rfl, rfl, all, later⟩
      exact ⟨map :: read, by simp, rfl, List.forall_mem_cons.mpr ⟨readable, all⟩,
        lists_cons.mpr ⟨after, listed, later⟩⟩
    · rintro ⟨_ | ⟨map, read⟩, rfl, counted, all, listed⟩
      · cases counted
      · obtain ⟨readable, all⟩ := List.forall_mem_cons.mp all
        obtain ⟨after, listed, later⟩ := lists_cons.mp listed
        exact ⟨map, after, ⟨readable, listed⟩, read, by simp, Nat.succ.inj counted, all, later⟩

/-- The fields of inputs are read one after the other, each from the entries of its map in any
order. -/
theorem readInputs_eq_ok_iff {count : Nat} {done inputs : List InputFields} {bytes rest : Bytes} :
    readInputs count done bytes = .ok (inputs, rest) ↔
      ∃ read, inputs = done.reverse ++ read ∧ read.length = count ∧
        (∀ fields ∈ read, fields.WellFormed ∧ AllReadable fields.toMap) ∧
        Lists (read.map InputFields.toMap) bytes rest := by
  induction count generalizing done bytes with
  | zero =>
    simp only [readInputs, List.length_eq_zero_iff]
    constructor
    · rintro same
      cases same
      exact ⟨[], by simp [lists_nil]⟩
    · rintro ⟨_, rfl, rfl, _, same⟩
      rw [lists_nil.mp same, List.append_nil]
  | succ count ih =>
    simp only [readInputs, Except.bind_eq_ok_iff, Prod.exists, readMap_empty_eq_ok_iff,
      readFields_eq_ok_iff, ih]
    constructor
    · rintro ⟨_, after, ⟨readable, listed⟩, fields, ⟨wellFormed, rfl⟩, read, rfl, rfl, all, later⟩
      exact ⟨fields :: read, by simp, rfl,
        List.forall_mem_cons.mpr ⟨⟨wellFormed, readable⟩, all⟩,
        lists_cons.mpr ⟨after, listed, later⟩⟩
    · rintro ⟨_ | ⟨fields, read⟩, rfl, counted, all, listed⟩
      · cases counted
      · obtain ⟨⟨wellFormed, readable⟩, all⟩ := List.forall_mem_cons.mp all
        obtain ⟨after, listed, later⟩ := lists_cons.mp listed
        exact ⟨_, after, ⟨readable, listed⟩, fields, ⟨wellFormed, rfl⟩, read, by simp,
          Nat.succ.inj counted, all, later⟩

end Maps

private theorem checkUnsignedInputs_eq_ok_iff {index : Nat} {inputs : List TxIn} :
    checkUnsignedInputs index inputs = .ok () ↔
      ∀ input ∈ inputs, input.signatureScript = [] ∧ input.witness = [] := by
  induction inputs generalizing index with
  | nil => simp [checkUnsignedInputs]
  | cons input inputs ih =>
    rw [checkUnsignedInputs, List.forall_mem_cons]
    simp only [Bool.and_eq_true, List.isEmpty_iff]
    split
    · rename_i unsigned
      simp only [ih, unsigned, true_and, and_self]
    · rename_i signed
      simp [signed]

theorem checkUnsigned_eq_ok_iff {tx : Transaction} : checkUnsigned tx = .ok () ↔ tx.Unsigned :=
  checkUnsignedInputs_eq_ok_iff

/-- The global map is the rest of it with the transaction under its key. -/
theorem takeTransaction_eq_ok_iff {map globals : KeyMap} {tx : Transaction} :
    takeTransaction map = .ok (tx, globals) ↔
      tx.Writable ∧ checkUnsigned tx = .ok () ∧ globals.get? transactionKey = none ∧
        globals.insert transactionKey tx.encode = map := by
  unfold takeTransaction
  constructor
  · intro taken
    split at taken
    · cases taken
    · rename_i wire found
      split at taken
      · cases taken
      · rename_i tx' read
        obtain ⟨writable, rfl⟩ := Transaction.ofBytes?_eq_some_iff.mp read
        obtain ⟨⟨⟩, unsigned, taken⟩ := Except.bind_eq_ok_iff.mp taken
        cases taken
        exact ⟨writable, unsigned, by rw [KeyMap.get?_erase, if_pos rfl], KeyMap.insert_erase found⟩
  · rintro ⟨writable, unsigned, fresh, rfl⟩
    have found :
        (globals.insert transactionKey tx.encode).get? transactionKey = some tx.encode := by
      rw [KeyMap.get?_insert, if_pos rfl]
    have read : Transaction.ofBytes? tx.encode = some tx :=
      Transaction.ofBytes?_eq_some_iff.mpr ⟨writable, rfl⟩
    simp only [found, read, unsigned, KeyMap.erase_insert fresh]
    rfl

section Parse

variable {packet : Packet} {raw : Bytes} {layout : Layout}

private theorem parseMaps_eq_ok_iff :
    parseMaps raw = .ok packet ↔
      ∃ globals afterGlobals afterInputs,
        readMap KeyMap.empty raw = .ok (globals, afterGlobals) ∧
        takeTransaction globals = .ok (packet.unsignedTx, packet.globals) ∧
        readInputs packet.unsignedTx.inputs.length [] afterGlobals =
          .ok (packet.inputs, afterInputs) ∧
        readMaps packet.unsignedTx.outputs.length [] afterInputs = .ok (packet.outputs, []) := by
  simp only [parseMaps, Except.bind_eq_ok_iff, Prod.exists]
  constructor
  · rintro ⟨globals, afterGlobals, readGlobals, tx, rest, taken, inputs, afterInputs, readInputs,
      outputs, after, readOutputs, last⟩
    cases after with
    | nil =>
      cases last
      exact ⟨globals, afterGlobals, afterInputs, readGlobals, taken, readInputs, readOutputs⟩
    | cons byte after => cases last
  · rintro ⟨globals, afterGlobals, afterInputs, readGlobals, taken, readInputs, readOutputs⟩
    exact ⟨globals, afterGlobals, readGlobals, _, _, taken, _, afterInputs, readInputs, _, [],
      readOutputs, rfl⟩

private theorem parse_eq_ok_iff_parseMaps :
    parse raw = .ok packet ↔ ∃ maps, raw = magic ++ maps ∧ parseMaps maps = .ok packet := by
  unfold parse
  split
  · rename_i marked
    obtain ⟨maps, rfl⟩ := List.isPrefixOf_iff_prefix.mp marked
    simp
  · rename_i unmarked
    simp only [reduceCtorEq, false_iff, not_exists, not_and]
    rintro maps rfl
    exact absurd (List.isPrefixOf_iff_prefix.mpr (List.prefix_append _ _)) unmarked

/-- What holds of all maps of a packet holds of the global map, and of those of its inputs and
outputs. -/
theorem forall_mem_maps {holds : List (Bytes × Bytes) → Prop} :
    (∀ entries ∈ packet.layout.maps, holds entries) ↔
      holds (packet.globals.insert transactionKey packet.unsignedTx.encode).entries ∧
        (∀ fields ∈ packet.inputs, holds fields.toMap.entries) ∧
        ∀ map ∈ packet.outputs, holds map.entries := by
  simp [Layout.maps, layout, or_imp, forall_and]

theorem WellFormed.readable (wellFormed : packet.WellFormed) :
    ∀ entries ∈ packet.layout.maps, ∀ entry ∈ entries, Readable entry := by
  intro entries map entry member
  obtain ⟨key, value⟩ := wellFormed.fits entries map entry member
  exact ⟨wellFormed.keyed entries map entry member, key, value⟩

theorem WellFormed.writable (wellFormed : packet.WellFormed) : packet.unsignedTx.Writable := by
  obtain ⟨globals, _⟩ := forall_mem_maps.mp wellFormed.fits
  have held : (transactionKey, packet.unsignedTx.encode) ∈
      (packet.globals.insert transactionKey packet.unsignedTx.encode).entries := by
    rw [← KeyMap.get?_eq_some_iff, KeyMap.get?_insert, if_pos rfl]
  exact wellFormed.unsigned.writable (globals _ held).2.length_lt

theorem WellFormed.fields (wellFormed : packet.WellFormed) :
    ∀ fields ∈ packet.inputs, fields.WellFormed := by
  intro fields member
  refine ⟨wellFormed.carried fields member, wellFormed.signers fields member,
    wellFormed.signatures fields member, fun output known => ?_⟩
  obtain ⟨_, inputs, _⟩ := forall_mem_maps.mp wellFormed.fits
  have held : ([InputFields.utxoKey], output.encode) ∈ fields.toMap.entries := by
    have typed : fields.typed? [InputFields.utxoKey] = some output.encode :=
      congrArg (Option.map TxOut.encode) known
    rw [← KeyMap.get?_eq_some_iff, InputFields.get?_toMap, typed, Option.some_or]
  have short := (inputs fields member _ held).2.length_lt
  exact Nat.lt_trans output.script_lt_length_encode short

private theorem wellFormed_iff :
    packet.WellFormed ↔
      packet.unsignedTx.Writable ∧ checkUnsigned packet.unsignedTx = .ok () ∧
        packet.globals.get? transactionKey = none ∧
        packet.inputs.length = packet.unsignedTx.inputs.length ∧
        packet.outputs.length = packet.unsignedTx.outputs.length ∧
        AllReadable (packet.globals.insert transactionKey packet.unsignedTx.encode) ∧
        (∀ fields ∈ packet.inputs, fields.WellFormed ∧ AllReadable fields.toMap) ∧
        ∀ map ∈ packet.outputs, AllReadable map := by
  constructor
  · intro wellFormed
    obtain ⟨globals, inputs, outputs⟩ := forall_mem_maps.mp wellFormed.readable
    exact ⟨wellFormed.writable, checkUnsigned_eq_ok_iff.mpr wellFormed.unsigned,
      wellFormed.transaction, wellFormed.inputMaps, wellFormed.outputMaps, globals,
      fun fields member => ⟨wellFormed.fields fields member, inputs fields member⟩, outputs⟩
  · rintro ⟨_, unsigned, transaction, inputMaps, outputMaps, globals, inputs, outputs⟩
    have readable : ∀ entries ∈ packet.layout.maps, ∀ entry ∈ entries, Readable entry :=
      forall_mem_maps.mpr ⟨globals, fun fields member => (inputs fields member).2, outputs⟩
    exact {
      unsigned := checkUnsigned_eq_ok_iff.mp unsigned
      inputMaps := inputMaps
      outputMaps := outputMaps
      keyed := fun entries map entry member => (readable entries map entry member).keyed
      transaction := transaction
      carried := fun fields member => (inputs fields member).1.carried
      signers := fun fields member => (inputs fields member).1.signers
      signatures := fun fields member => (inputs fields member).1.signatures
      fits := fun entries map entry member =>
        have item := readable entries map entry member
        ⟨item.key, item.value⟩ }

/-- The bytes of the layouts of a packet are its maps, each with its entries in any order. -/
private theorem exists_layout_iff :
    (∃ layout : Layout, layout.Rearranges packet.layout ∧ raw = layout.bytes) ↔
      ∃ afterGlobals afterInputs, Lists (packet.outputs) afterInputs [] ∧
        Lists (packet.inputs.map InputFields.toMap) afterGlobals afterInputs ∧
        ∃ entries, entries.Perm
            (packet.globals.insert transactionKey packet.unsignedTx.encode).entries ∧
          raw = magic ++ (KeyMap.writeEntries entries ++ afterGlobals) := by
  simp only [Lists, List.forall₂_map_right_iff]
  constructor
  · rintro ⟨layout, ⟨globals, inputs, outputs⟩, rfl⟩
    refine ⟨_, _, ⟨layout.outputs, List.forall₂_map_right_iff.mp outputs, rfl⟩,
      ⟨layout.inputs, List.forall₂_map_right_iff.mp inputs, rfl⟩, layout.globals, globals, ?_⟩
    simp only [Layout.bytes, Layout.maps, List.flatMap_cons, List.flatMap_append, List.append_nil]
  · rintro ⟨_, _, ⟨outputs, permOutputs, rfl⟩, ⟨inputs, permInputs, rfl⟩, globals, permGlobals, rfl⟩
    refine ⟨⟨globals, inputs, outputs⟩, ⟨permGlobals, List.forall₂_map_right_iff.mpr permInputs,
      List.forall₂_map_right_iff.mpr permOutputs⟩, ?_⟩
    simp only [Layout.bytes, Layout.maps, List.flatMap_cons, List.flatMap_append, List.append_nil]

/-- The bytes that are read as a packet are those of the layouts of the packet, if it is
well-formed. -/
theorem parse_eq_ok_iff :
    parse raw = .ok packet ↔
      packet.WellFormed ∧
        ∃ layout : Layout, layout.Rearranges packet.layout ∧ raw = layout.bytes := by
  rw [parse_eq_ok_iff_parseMaps, wellFormed_iff, exists_layout_iff]
  simp only [parseMaps_eq_ok_iff, readMap_empty_eq_ok_iff, takeTransaction_eq_ok_iff,
    readInputs_eq_ok_iff, readMaps_eq_ok_iff, List.reverse_nil, List.nil_append]
  constructor
  · rintro ⟨_, rfl, _, afterGlobals, afterInputs, ⟨readable, globals, permGlobals, rfl⟩,
      ⟨writable, unsigned, fresh, rfl⟩, ⟨_, rfl, inputMaps, inputs, listedInputs⟩,
      _, rfl, outputMaps, outputs, listedOutputs⟩
    exact ⟨⟨writable, unsigned, fresh, inputMaps, outputMaps, readable, inputs, outputs⟩,
      afterGlobals, afterInputs, listedOutputs, listedInputs, globals, permGlobals, rfl⟩
  · rintro ⟨⟨writable, unsigned, fresh, inputMaps, outputMaps, readable, inputs, outputs⟩,
      afterGlobals, afterInputs, listedOutputs, listedInputs, globals, permGlobals, rfl⟩
    exact ⟨_, rfl, _, afterGlobals, afterInputs, ⟨readable, globals, permGlobals, rfl⟩,
      ⟨writable, unsigned, fresh, rfl⟩, ⟨_, rfl, inputMaps, inputs, listedInputs⟩,
      _, rfl, outputMaps, outputs, listedOutputs⟩

end Parse

section Order

variable {packet : Packet} {raw : Bytes} {layout : Layout}

theorem Layout.Rearranges.refl (layout : Layout) : layout.Rearranges layout :=
  ⟨.refl _, List.forall₂_same.mpr fun _ _ => .refl _, List.forall₂_same.mpr fun _ _ => .refl _⟩

/-- A packet that is read from some bytes is read from its own. -/
theorem WellFormed.parse_serialize (wellFormed : packet.WellFormed) :
    parse packet.serialize = .ok packet :=
  parse_eq_ok_iff.mpr ⟨wellFormed, packet.layout, .refl _, packet.serialize_eq_bytes⟩

theorem WellFormed.marshal (wellFormed : packet.WellFormed) :
    packet.marshal = .ok packet.serialize := by
  simp only [Packet.marshal, wellFormed.parse_serialize, ↓reduceIte]

theorem Layout.Rearranges.maps {original : Layout} (rearranges : layout.Rearranges original) :
    List.Forall₂ List.Perm layout.maps original.maps :=
  .cons rearranges.globals (List.rel_append rearranges.inputs rearranges.outputs)

section Listings

variable {listings original : List (List (Bytes × Bytes))}

private theorem length_flatMap_of_perm (perm : List.Forall₂ List.Perm listings original) :
    (listings.flatMap KeyMap.writeEntries).length =
      (original.flatMap KeyMap.writeEntries).length := by
  induction perm with
  | nil => rfl
  | cons here _ ih =>
    simp only [List.flatMap_cons, List.length_append, ih, KeyMap.length_writeEntries_of_perm here]

private theorem exists_perm_of_mem (perm : List.Forall₂ List.Perm listings original)
    {entries : List (Bytes × Bytes)} (member : entries ∈ listings) :
    ∃ entries' ∈ original, entries.Perm entries' := by
  induction perm with
  | nil => cases member
  | cons here _ ih =>
    rcases List.mem_cons.mp member with rfl | later
    · exact ⟨_, List.mem_cons_self, here⟩
    · obtain ⟨entries', member', perm'⟩ := ih later
      exact ⟨entries', List.mem_cons_of_mem _ member', perm'⟩

private theorem eq_of_ascending_of_perm (perm : List.Forall₂ List.Perm listings original)
    (ascending : ∀ entries ∈ listings, entries.Pairwise (·.1 < ·.1))
    (ascending' : ∀ entries ∈ original, entries.Pairwise (·.1 < ·.1)) : listings = original := by
  induction perm with
  | nil => rfl
  | cons here _ ih =>
    obtain ⟨ascendingHere, ascendingLater⟩ := List.forall_mem_cons.mp ascending
    obtain ⟨ascendingHere', ascendingLater'⟩ := List.forall_mem_cons.mp ascending'
    have same := KeyMap.eq_of_perm (a := ⟨_, ascendingHere⟩) (b := ⟨_, ascendingHere'⟩) here
    rw [KeyMap.mk.inj same, ih ascendingLater ascendingLater']

end Listings

theorem Layout.Rearranges.length_bytes {original : Layout}
    (rearranges : layout.Rearranges original) : layout.bytes.length = original.bytes.length := by
  simp only [Layout.bytes, List.length_append, length_flatMap_of_perm rearranges.maps]

theorem layout_ascending (packet : Packet) : packet.layout.Ascending :=
  forall_mem_maps.mpr ⟨KeyMap.ascending _, fun fields _ => fields.toMap.ascending,
    fun map _ => map.ascending⟩

/-- Among the layouts of a packet, the one in which it is written is the ascending one. -/
theorem WellFormed.serialize_eq_iff (wellFormed : packet.WellFormed)
    (rearranges : layout.Rearranges packet.layout) :
    packet.serialize = layout.bytes ↔ layout.Ascending := by
  rw [serialize_eq_bytes]
  constructor
  · intro same
    have keyed : ∀ entries ∈ layout.maps, ∀ entry ∈ entries, entry.1 ≠ [] := by
      intro entries member entry among
      obtain ⟨entries', member', perm⟩ := exists_perm_of_mem rearranges.maps member
      exact wellFormed.keyed entries' member' entry (perm.mem_iff.mp among)
    have maps : layout.maps = packet.layout.maps :=
      flatMap_writeEntries_inj keyed wellFormed.readable (List.append_cancel_left same).symm
    rw [Layout.Ascending, maps]
    exact packet.layout_ascending
  · intro ascending
    have maps : layout.maps = packet.layout.maps :=
      eq_of_ascending_of_perm rearranges.maps ascending packet.layout_ascending
    rw [Layout.bytes, Layout.bytes, maps]

/-- Bytes are read as a packet exactly when it is well-formed and they are its written form with the
entries of each map in any order. The written form is as long, is read as the packet, passes the
check of `marshal`, and is the bytes that were read exactly when those list all keys in ascending
order. -/
theorem parse_iff_rearranged (raw : Bytes) (packet : Packet) :
    (parse raw = .ok packet ↔
      packet.WellFormed ∧
        ∃ layout : Layout, layout.Rearranges packet.layout ∧ raw = layout.bytes) ∧
    (parse raw = .ok packet →
      packet.serialize.length = raw.length ∧ parse packet.serialize = .ok packet ∧
        packet.marshal = .ok packet.serialize ∧
        ∀ layout : Layout, layout.Rearranges packet.layout → raw = layout.bytes →
          (packet.serialize = raw ↔ layout.Ascending)) := by
  refine ⟨parse_eq_ok_iff, fun parsed => ?_⟩
  obtain ⟨wellFormed, layout, rearranges, rfl⟩ := parse_eq_ok_iff.mp parsed
  refine ⟨?_, wellFormed.parse_serialize, wellFormed.marshal, ?_⟩
  · rw [serialize_eq_bytes, rearranges.length_bytes]
  · rintro layout' rearranges' same
    rw [same]
    exact wellFormed.serialize_eq_iff rearranges'

/-- A packet with one input, of which there is all that can be known, and one output. Each of its
maps carries one more entry. -/
def carrying : Packet where
  unsignedTx := ⟨2, 0, [{ previous := ⟨Txid.zero, 0⟩ }], [⟨1000, [0x51]⟩]⟩
  globals := KeyMap.empty.insert [1] [7]
  inputs := [{
    witnessUtxo := some ⟨2000, [0x51]⟩
    witnessScript := some [0x51]
    sighashType := some 0x81
    partialSignatures := KeyMap.empty.insert Secp256k1.PublicKey.generator.bytes [0x30]
    unknown := KeyMap.empty.insert [9] [8] }]
  outputs := [KeyMap.empty.insert [2] [9]]

theorem wellFormed_carrying : carrying.WellFormed := by
  constructor <;> decide +kernel

/-- The entries of its maps in descending order. -/
def descending : Layout where
  globals := carrying.layout.globals.reverse
  inputs := carrying.layout.inputs.map List.reverse
  outputs := carrying.layout.outputs.map List.reverse

theorem parse_descending :
    parse descending.bytes = .ok carrying ∧ carrying.serialize ≠ descending.bytes := by
  have rearranges : descending.Rearranges carrying.layout :=
    ⟨List.reverse_perm _,
      List.forall₂_map_left_iff.mpr (List.forall₂_same.mpr fun _ _ => List.reverse_perm _),
      List.forall₂_map_left_iff.mpr (List.forall₂_same.mpr fun _ _ => List.reverse_perm _)⟩
  obtain ⟨read, written⟩ := parse_iff_rearranged descending.bytes carrying
  have parsed := read.mpr ⟨wellFormed_carrying, descending, rearranges, rfl⟩
  refine ⟨parsed, fun same => ?_⟩
  have ascending := ((written parsed).2.2.2 descending rearranges rfl).mp same
  revert ascending
  unfold Layout.Ascending
  decide +kernel

end Order

end Custody.Packet
