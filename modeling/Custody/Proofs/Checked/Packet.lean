import Custody.Packet.Transport
import Custody.Proofs.Checked
import Custody.Proofs.Packet.Map

/-! # Packets are read without accesses out of range

The first byte of a key is its type, and what follows is its data. Both are there because a map ends
at an empty key, so that no empty key is kept in it.
-/

namespace Custody.Packet

/-- Takes an entry into the fields of an input, by the first byte of its key, which must be
there. -/
def readFieldChecked (index : Nat) (fields : InputFields) (entry : Bytes × Bytes) :
    Checked Fault InputFields := do
  let (key, value) := entry
  let keyType ← Checked.item key 0
  if keyType = InputFields.utxoKey ∧ key.length = 1 then
    match TxOut.ofBytes? value with
    | some utxo => return { fields with witnessUtxo := some utxo }
    | none => throw (.witnessUtxo index)
  else if keyType = InputFields.signatureKey then
    let publicKey ← Checked.tail key 1
    if (Secp256k1.Point.decode? publicKey).isNone then throw (.signatureKey index)
    else if value.isEmpty then throw (.emptySignature index)
    else return fields.sign publicKey value
  else if keyType = InputFields.sighashKey ∧ key.length = 1 then
    if value.length = 4 then
      return { fields with sighashType := some (UInt32.ofNat (Bytes.toNatLE value)) }
    else throw (.sighashSize index value.length)
  else if keyType = InputFields.scriptKey ∧ key.length = 1 then
    return { fields with witnessScript := some value }
  else if keyType = InputFields.utxoKey ∨ keyType = InputFields.sighashKey ∨
      keyType = InputFields.scriptKey then
    let shown ← Checked.item key 0
    throw (.keyData index shown)
  else return { fields with unknown := fields.unknown.insert key value }

theorem readFieldChecked_eq {index : Nat} {fields : InputFields} {entry : Bytes × Bytes}
    (keyed : entry.1 ≠ []) :
    readFieldChecked index fields entry = .total (readField index fields entry) := by
  obtain ⟨key, value⟩ := entry
  cases key with
  | nil => exact absurd rfl keyed
  | cons keyType data =>
    have rest : (Checked.tail (keyType :: data) 1 : Checked Fault Bytes) = pure data :=
      Checked.tail_of_le (by simp)
    have single : (keyType :: data).length = 1 ↔ data.isEmpty = true := by simp
    simp only [readFieldChecked, readField, Checked.item_zero, pure_bind, rest, single,
      Bool.and_eq_true, Bool.or_eq_true, decide_eq_true_eq, or_assoc]
    by_cases signature : keyType = InputFields.signatureKey
    · have other : ¬ (keyType = InputFields.utxoKey ∧ data.isEmpty = true) := by
        rw [signature]
        exact fun both => absurd both.1 (by decide)
      rw [if_neg other, if_pos signature, if_pos signature]
      split_ifs <;> rfl
    · rw [if_neg signature, if_neg signature]
      split_ifs
      · cases TxOut.ofBytes? value <;> rfl
      all_goals rfl

/-- The empty key would have no type. -/
theorem readFieldChecked_nil (index : Nat) (fields : InputFields) (value : Bytes) :
    (readFieldChecked index fields ([], value)).outcome? = none := rfl

/-- The fields of a map. -/
def readFieldsChecked (index : Nat) (map : KeyMap) : Checked Fault InputFields :=
  map.entries.foldlM (readFieldChecked index) {}

/-- Reads the fields of inputs. -/
def readInputsChecked :
    Nat → List InputFields → Bytes → Checked Fault (List InputFields × Bytes)
  | 0, done, bytes => return (done.reverse, bytes)
  | count + 1, done, bytes => do
    let (map, rest) ← Checked.total (readMap KeyMap.empty bytes)
    let fields ← readFieldsChecked done.length map
    readInputsChecked count (fields :: done) rest

/-- Reads the maps behind the magic number. -/
def parseMapsChecked (bytes : Bytes) : Checked Fault Packet := do
  let (globals, rest) ← Checked.total (readMap KeyMap.empty bytes)
  let (tx, globals) ← Checked.total (takeTransaction globals)
  let (inputs, rest) ← readInputsChecked tx.inputs.length [] rest
  let (outputs, rest) ← Checked.total (readMaps tx.outputs.length [] rest)
  if !rest.isEmpty then throw (.trailing rest.length)
  return ⟨tx, globals, inputs, outputs⟩

/-- Reads a packet. -/
def parseChecked (bytes : Bytes) : Checked Fault Packet :=
  if magic.isPrefixOf bytes then parseMapsChecked (bytes.drop magic.length) else throw .magic

/-- Reads the text form of a packet. -/
def ofTextChecked (text : String) : Checked Fault Packet :=
  let trimmed := Blank.trim text
  match Hex.decode trimmed with
  | .ok bytes => parseChecked bytes
  | .error _ =>
    match Base64.decode? trimmed with
    | some bytes => parseChecked bytes
    | none => throw .notDigits

/-- Reads a packet in any form. -/
def decodeChecked (data : Bytes) : Checked Fault Packet :=
  if magic.isPrefixOf data then parseChecked data
  else
    match Bytes.toText? data with
    | some text => ofTextChecked text
    | none => throw .notText

/-- No key of a map that is read is empty. -/
theorem keyed_of_readMap {bytes rest : Bytes} {map : KeyMap}
    (read : readMap KeyMap.empty bytes = .ok (map, rest)) : ∀ entry ∈ map.entries, entry.1 ≠ [] :=
  fun entry member => ((readMap_empty_eq_ok_iff.mp read).1 entry member).keyed

theorem readFieldsChecked_eq {index : Nat} {map : KeyMap}
    (keyed : ∀ entry ∈ map.entries, entry.1 ≠ []) :
    readFieldsChecked index map = .total (readFields index map) :=
  Checked.foldlM_eq_total (fun entry member _ => readFieldChecked_eq (keyed entry member)) {}

theorem readInputsChecked_eq (count : Nat) (done : List InputFields) (bytes : Bytes) :
    readInputsChecked count done bytes = .total (readInputs count done bytes) := by
  induction count generalizing done bytes with
  | zero => rfl
  | succ count ih =>
    refine Checked.bind_eq_total rfl fun (map, rest) read => ?_
    refine Checked.bind_eq_total (readFieldsChecked_eq (keyed_of_readMap read)) fun fields _ => ?_
    exact ih (fields :: done) rest

theorem parseMapsChecked_eq (bytes : Bytes) :
    parseMapsChecked bytes = .total (parseMaps bytes) := by
  refine Checked.bind_eq_total rfl fun (globals, rest) _ => ?_
  refine Checked.bind_eq_total rfl fun (tx, globals) _ => ?_
  refine Checked.bind_eq_total (readInputsChecked_eq ..) fun (inputs, rest) _ => ?_
  refine Checked.bind_eq_total rfl fun (outputs, rest) _ => ?_
  dsimp only
  split <;> rfl

/-- Whatever bytes are given, reading a packet makes no access out of range. -/
theorem parseChecked_eq (bytes : Bytes) : parseChecked bytes = .total (parse bytes) := by
  unfold parseChecked parse
  split
  · exact parseMapsChecked_eq _
  · rfl

theorem ofTextChecked_eq (text : String) : ofTextChecked text = .total (ofText text) := by
  simp only [ofTextChecked, ofText, parseChecked_eq]
  cases Hex.decode (Blank.trim text) with
  | ok bytes => rfl
  | error fault => cases Base64.decode? (Blank.trim text) <;> rfl

/-- Whatever bytes are given, reading a packet in any form makes no access out of range. -/
theorem decodeChecked_eq (data : Bytes) : decodeChecked data = .total (decode data) := by
  simp only [decodeChecked, decode, parseChecked_eq, ofTextChecked_eq]
  split
  · rfl
  · cases Bytes.toText? data <;> rfl

end Custody.Packet
