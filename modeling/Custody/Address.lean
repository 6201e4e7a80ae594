import Custody.Error
import Custody.Script
import Custody.Text.Base58
import Custody.Text.Bech32
import Custody.Text.Hex

/-! # Addresses

An address is the text of a witness program, or else a version byte and a hash of 20 bytes with a
checksum. On a network an address pays to a standard locking script: the witness prefix or the
version byte must be the network's, and of witness programs only version 0 and taproot are taken.
-/

namespace Custody

/-- What the text of an address says, on whatever network. -/
inductive Address where
  | witness (program : Bech32.Program)
  | hashed (version : UInt8) (hash : Bytes)
deriving DecidableEq

namespace Address

/-- Why a text is no address that a network can pay to. -/
inductive Fault where
  | unreadable
  | empty
  | hashSize (bytes : Nat)
  | foreign
  | unknownVersion (version : UInt8)
  | unsupportedProgram (version bytes : Nat)
deriving DecidableEq

def Fault.message (address : String) (network : Network) : Fault → String
  | .unreadable => s!"failed to parse address {address}: neither a witness address nor base 58"
  | .empty => s!"empty address payload {address}"
  | .hashSize bytes => s!"{address} carries {bytes} hash bytes, expected 20"
  | .foreign => s!"{address} is not a {network.name} address"
  | .unknownVersion version =>
    s!"{address} has unknown version byte 0x{Hex.encode [version]} for {network.name}"
  | .unsupportedProgram version bytes =>
    s!"unsupported witness program v{version} with {bytes} bytes"

def ofText (text : String) : Except Fault Address :=
  match Bech32.decode? text with
  | some program => .ok (.witness program)
  | none =>
    match Base58.decode? text with
    | none => .error .unreadable
    | some [] => .error .empty
    | some (version :: hash) =>
      if hash.length = 20 then .ok (.hashed version hash) else .error (.hashSize hash.length)

def programScript (version : Nat) (program : Bytes) : Except Fault Script :=
  if (version = 0 && (program.length = 20 || program.length = 32))
      || (version = 1 && program.length = 32) then
    .ok (Script.payToWitness version program)
  else .error (.unsupportedProgram version program.length)

/-- The locking script that an address pays to on a network. -/
def script (address : Address) (network : Network) : Except Fault Script :=
  match address with
  | .witness program =>
    if program.hrp ≠ network.params.hrp then .error .foreign
    else programScript program.version program.program
  | .hashed version hash =>
    if version = network.params.pubkeyHashVersion then .ok (Script.payToPubkeyHash hash)
    else if version = network.params.scriptHashVersion then .ok (Script.payToScriptHash hash)
    else .error (.unknownVersion version)

/-- Whether an address has the prefix or a version byte of a network. -/
def belongsTo (address : Address) (network : Network) : Bool :=
  match address with
  | .witness program => program.hrp = network.params.hrp
  | .hashed version _ =>
    version = network.params.pubkeyHashVersion || version = network.params.scriptHashVersion

def Fault.toError (address : String) (network : Network) (fault : Fault) : Error :=
  .invalidAddress (fault.message address network)

def toScript (text : String) (network : Network) : Except Error Script :=
  match (ofText text).bind (·.script network) with
  | .ok script => .ok script
  | .error fault => .error (fault.toError text network)

/-- The locking script of an address's text; a failure names the network. -/
def parse (text : String) (network : Network) : Except Error Script :=
  match toScript text network with
  | .ok script => .ok script
  | .error error => .error (.invalidAddress s!"{network.name} address {text}: {error.message}")

/-- Whether an address belongs to a network; a failure if the text is no address. -/
def validate (text : String) (network : Network) : Except Error Bool :=
  match ofText text with
  | .ok address => .ok (address.belongsTo network)
  | .error fault => .error (fault.toError text network)

def encodeWitness (version : Nat) (program : Bytes) (network : Network) : Except Error String :=
  if 32 ≤ version then
    .error (.invalidAddress s!"bad witness version {version}: versions have five bits")
  else
    match Bech32.encode? network.params.hrp version program with
    | some text => .ok text
    | none =>
      .error (.invalidAddress
        s!"failed to encode witness address: version {version} with {program.length} bytes")

/-- The text of a version byte and a hash. -/
def encodeHashed (version : UInt8) (hash : Bytes) : String :=
  Base58.encode (version :: hash)

end Address

end Custody
