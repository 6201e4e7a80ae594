import Custody.Proofs.Packet.RoundTrip
import Custody.Proofs.Packet.Transport
import Custody.Proofs.Text.Base64

/-! # The forms of a packet are told apart

Whoever receives a packet is not told in which of its three forms it comes. The binary form is no
text, and no text has the magic number in front; the base 64 text of the magic number holds a letter
that is no hexadecimal digit. So each form is decoded as what it is, with blanks around the texts
and the letters of the hexadecimal text in either case.
-/

namespace Custody

namespace Bytes

/-- Bytes that are the bytes of a text are those of the text that they spell. -/
theorem ofText_of_toText? {bytes : Bytes} {text : String} (spelled : toText? bytes = some text) :
    ofText text = bytes := by
  unfold toText? String.fromUTF8? at spelled
  split at spelled
  · cases spelled
    rfl
  · cases spelled

end Bytes

namespace Hex

private theorem toLower_digit : ∀ n < 16, (digit n).toLower = digit n := by
  decide

/-- What is written has no capital letters. -/
theorem toLower_encode (bytes : Bytes) : (encode bytes).toLower = encode bytes :=
  Ascii.toLower_eq_self (forall_mem_encode toLower_digit bytes)

private theorem isBlank_ascii : ∀ c : Char, c.toNat < 128 →
    c.isHexDigit = true → Blank.isBlank c = false :=
  Ascii.forall_of_lt (by decide)

/-- A text that is read holds no blanks. -/
theorem isBlank_of_decode {text : String} {bytes : Bytes} (read : decode text = .ok bytes) :
    ∀ c ∈ text.toList, Blank.isBlank c = false := by
  intro c member
  have digit := (exists_decode_iff.mp ⟨bytes, read, rfl⟩).2 c member
  exact isBlank_ascii c (toNat_lt_of_isHexDigit digit) digit

end Hex

namespace Base64

private theorem isBlank_letter : ∀ n < 64, Blank.isBlank (digit n) = false := by
  decide

/-- What is written holds no blanks. -/
theorem isBlank_of_mem_encode (bytes : Bytes) :
    ∀ c ∈ (encode bytes).toList, Blank.isBlank c = false :=
  forall_mem_encode isBlank_letter bytes

end Base64

namespace Packet

open Blank

variable {packet : Packet} {raw : Bytes} {before text after : String}

section Told

theorem magic_prefix_serialize (packet : Packet) : magic <+: packet.serialize := by
  rw [serialize, List.append_assoc, List.append_assoc]
  exact List.prefix_append _ _

/-- What has the magic number in front is no text. -/
theorem toText?_of_marked (marked : magic <+: raw) : Bytes.toText? raw = none := by
  rw [Option.eq_none_iff_forall_ne_some]
  intro text spelled
  rw [← Bytes.ofText_of_toText? spelled] at marked
  exact not_magic_prefix_ofText text marked

/-- The base 64 text of what has the magic number in front is no hexadecimal text: its second letter
is an `H`. -/
theorem hexDecode_encode_of_marked (marked : magic <+: raw) :
    ∃ fault, Hex.decode (Base64.encode raw) = .error fault := by
  obtain ⟨rest, rfl⟩ := marked
  have letter : 'H' ∈ (Base64.encode (magic ++ rest)).toList := by
    rw [Base64.toList_encode]
    exact List.mem_map.mpr ⟨7, .tail _ (.head _), by decide⟩
  cases read : Hex.decode (Base64.encode (magic ++ rest)) with
  | error fault => exact ⟨fault, rfl⟩
  | ok bytes =>
    have digits := (Hex.exists_decode_iff.mp ⟨bytes, read, rfl⟩).2
    exact absurd (digits 'H' letter) (by decide)

end Told

section Decoded

theorem decode_of_marked (marked : magic <+: raw) : decode raw = parse raw := by
  rw [decode, if_pos (List.isPrefixOf_iff_prefix.mpr marked)]

/-- A text with blanks around it is decoded as the text is. -/
private theorem decode_append_append (blankBefore : ∀ c ∈ before.toList, isBlank c = true)
    (solid : ∀ c ∈ text.toList, isBlank c = false)
    (blankAfter : ∀ c ∈ after.toList, isBlank c = true) :
    decode (Bytes.ofText (before ++ text ++ after)) = ofText text := by
  rw [decode_ofText, ofText, ofText, trim_append_append blankBefore solid blankAfter,
    trim_eq_self solid]

/-- A hexadecimal text with blanks around it is decoded as the bytes that it spells. -/
theorem decode_hex (blankBefore : ∀ c ∈ before.toList, isBlank c = true)
    (read : Hex.decode text = .ok raw) (blankAfter : ∀ c ∈ after.toList, isBlank c = true) :
    decode (Bytes.ofText (before ++ text ++ after)) = parse raw := by
  have solid := Hex.isBlank_of_decode read
  rw [decode_append_append blankBefore solid blankAfter, ofText, trim_eq_self solid, read]

/-- The base 64 text of what has the magic number in front is decoded as that, with blanks around
it. -/
theorem decode_base64 (blankBefore : ∀ c ∈ before.toList, isBlank c = true)
    (marked : magic <+: raw) (blankAfter : ∀ c ∈ after.toList, isBlank c = true) :
    decode (Bytes.ofText (before ++ Base64.encode raw ++ after)) = parse raw := by
  have solid := Base64.isBlank_of_mem_encode raw
  obtain ⟨fault, refused⟩ := hexDecode_encode_of_marked marked
  rw [decode_append_append blankBefore solid blankAfter, ofText, trim_eq_self solid, refused,
    Base64.decode?_encode]

/-- A packet that is read from some bytes has all three forms. Each is decoded as the packet, the
texts with blanks around them and the hexadecimal one with its letters in either case; and none can
be taken for another. -/
theorem decode_every_form (parsed : parse raw = .ok packet) :
    ∃ bytes hex base64, packet.marshal = .ok bytes ∧ packet.toHex = .ok hex ∧
      packet.toBase64 = .ok base64 ∧
      decode bytes = .ok packet ∧
      (∀ before text after : String, (∀ c ∈ before.toList, isBlank c = true) →
        text.toLower = hex.toLower → (∀ c ∈ after.toList, isBlank c = true) →
        decode (Bytes.ofText (before ++ text ++ after)) = .ok packet) ∧
      (∀ before after : String, (∀ c ∈ before.toList, isBlank c = true) →
        (∀ c ∈ after.toList, isBlank c = true) →
        decode (Bytes.ofText (before ++ base64 ++ after)) = .ok packet) ∧
      Bytes.toText? bytes = none ∧
      (∀ text, ¬ magic <+: Bytes.ofText text) ∧
      ∃ fault, Hex.decode base64 = .error fault := by
  have wellFormed : packet.WellFormed := (parse_eq_ok_iff.mp parsed).1
  have written := wellFormed.marshal
  have read := wellFormed.parse_serialize
  have marked := packet.magic_prefix_serialize
  refine ⟨packet.serialize, Hex.encode packet.serialize, Base64.encode packet.serialize, written,
    by rw [toHex, written]; rfl, by rw [toBase64, written]; rfl, ?_, ?_, ?_,
    toText?_of_marked marked, not_magic_prefix_ofText,
    hexDecode_encode_of_marked marked⟩
  · rw [decode_of_marked marked, read]
  · intro before text after blankBefore same blankAfter
    rw [Hex.toLower_encode] at same
    rw [decode_hex blankBefore (Hex.decode_of_toLower same) blankAfter, read]
  · intro before after blankBefore blankAfter
    rw [decode_base64 blankBefore marked blankAfter, read]

theorem decode_every_form_carrying :
    parse carrying.serialize = .ok carrying ∧
      ∃ base64, carrying.toBase64 = .ok base64 ∧
        decode (Bytes.ofText (" " ++ base64 ++ "\n")) = .ok carrying := by
  have parsed := wellFormed_carrying.parse_serialize
  obtain ⟨_, _, base64, _, _, written, _, _, decoded, _⟩ := decode_every_form parsed
  have space : ∀ c ∈ " ".toList, isBlank c = true := List.all_eq_true.mp (by decide)
  have newline : ∀ c ∈ "\n".toList, isBlank c = true := List.all_eq_true.mp (by decide)
  exact ⟨parsed, base64, written, decoded " " "\n" space newline⟩

end Decoded

end Packet

end Custody
