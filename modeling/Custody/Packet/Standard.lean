import Custody.Packet.Field

/-! # Packets as the standard writes them

Other software reads every entry that it knows and writes it in its own form and order. A packet
whose known entries are all in form has a standard form: the transaction first and without the
mark of witnesses, known entries by type, entries that belong to an owner, and the rest.
-/

namespace Custody.Packet

structure StandardEntry where
  /-- Places the entry in its map: the key type, or 255 for an unknown one, and what orders the
  entries of the type. -/
  order : List Bytes
  key : Bytes
  value : Bytes

namespace StandardEntry

/-- Reads an entry under the rules of its map. -/
def read? (rule? : UInt8 → Option Rule) (entry : Bytes × Bytes) : Option StandardEntry :=
  match entry.1 with
  | [] => none
  | keyType :: data =>
    match rule? keyType with
    | some rule =>
      (rule data entry.2).map fun content =>
        ⟨[keyType] :: content.order, keyType :: content.data, content.value⟩
    | none => some ⟨[[0xFF], entry.1], entry.1, entry.2⟩

/-- Places an entry among ordered ones, unless its place is taken. -/
def place? (entry : StandardEntry) : List StandardEntry → Option (List StandardEntry)
  | [] => some [entry]
  | head :: rest =>
    if entry.order < head.order then some (entry :: head :: rest)
    else if entry.order = head.order then none
    else (entry.place? rest).map (head :: ·)

/-- Reads the entries of a map, in standard order. -/
def readMap? (rule? : UInt8 → Option Rule) (map : KeyMap) : Option (List StandardEntry) :=
  map.entries.foldlM (fun done entry => (read? rule? entry).bind (·.place? done)) []

def writeMap (entries : List StandardEntry) : Bytes :=
  (entries.flatMap fun entry => CompactSize.sized entry.key ++ CompactSize.sized entry.value) ++ [0]

end StandardEntry

/-- Key of the version in the global map; the only version is zero, and it is not written. -/
def versionKey : Bytes := [0xFB]

/-- The bytes of a transaction, read without regard to a mark of witnesses. -/
def plainTransaction? (wire : Bytes) : Option Transaction := do
  let (version, rest) ← readUInt32? wire
  let (inputs, rest) ← readCounted? TxIn.decode? rest
  match ← Transaction.decodePlainTail? version.toInt32 inputs rest with
  | (tx, []) => if (checkUnsigned tx).toBool then return tx else none
  | _ => none

/-- The standard form of the bytes of a packet. The transaction is read without regard to a mark of
witnesses and tells the number of maps; what follows them is ignored. -/
def standardForm? (bytes : Bytes) : Option Bytes := do
  let (globals, rest) ← (readMap KeyMap.empty (bytes.drop magic.length)).toOption
  let tx ← plainTransaction? (← globals.get? transactionKey)
  let (inputs, rest) ← (readMaps tx.inputs.length [] rest).toOption
  let (outputs, _) ← (readMaps tx.outputs.length [] rest).toOption
  let globals ← StandardEntry.readMap? Field.globalRule? (globals.erase transactionKey)
  let inputs ← inputs.mapM (StandardEntry.readMap? Field.inputRule?)
  let outputs ← outputs.mapM (StandardEntry.readMap? Field.outputRule?)
  return magic ++ CompactSize.sized transactionKey ++ CompactSize.sized tx.encodePlain
    ++ StandardEntry.writeMap (globals.filter (·.key ≠ versionKey))
    ++ inputs.flatMap StandardEntry.writeMap ++ outputs.flatMap StandardEntry.writeMap

def toStandard (packet : Packet) : Except Error Bytes := do
  match standardForm? (← packet.marshal) with
  | some bytes => return bytes
  | none =>
    throw (.packet s!"packet {packet.hash} is not a bitcoin psbt: an entry is out of form")

/-- The packet that remains of the standard form. -/
def throughStandard (packet : Packet) : Except Error Packet := do
  let bytes ← packet.toStandard
  (parse bytes).mapError Fault.toError

end Custody.Packet
