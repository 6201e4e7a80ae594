import Custody.Packet.Codec
import Custody.Text.Base64
import Custody.Text.Blank

/-! # Packets in transit

A packet travels as its binary form, as hexadecimal text, or as base 64. The magic number is no
well-formed UTF-8, so the binary form is never taken for a text; and its base 64 text is no
hexadecimal text, so that is tried first.
-/

namespace Custody.Packet

def toHex (packet : Packet) : Except Error String :=
  packet.marshal.map Hex.encode

def toBase64 (packet : Packet) : Except Error String :=
  packet.marshal.map Base64.encode

def ofText (text : String) : Except Fault Packet :=
  let trimmed := Blank.trim text
  match Hex.decode trimmed with
  | .ok bytes => parse bytes
  | .error _ =>
    match Base64.decode? trimmed with
    | some bytes => parse bytes
    | none => .error .notDigits

/-- Reads a packet in any form. -/
def decode (data : Bytes) : Except Fault Packet :=
  if magic.isPrefixOf data then parse data
  else
    match Bytes.toText? data with
    | some text => ofText text
    | none => .error .notText

end Custody.Packet
