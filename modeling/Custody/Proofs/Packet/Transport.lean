import Custody.Packet.Transport
import Custody.Proofs.Packet.RoundTrip
import Custody.Proofs.Text.Blank
import Custody.Proofs.Text.Hex

/-! # Packets in texts

No text holds the byte `ff` of the magic number, so a text is never taken for the binary form.
Whatever form a packet comes in, it is read from some bytes, so it is well-formed.
-/

namespace Custody

namespace Bytes

/-- The bytes of a text are those of well-formed UTF-8, and spell the text. -/
theorem toText?_ofText (text : String) : toText? (ofText text) = some text := by
  have whole : (⟨(ofText text).toArray⟩ : ByteArray) = text.toByteArray := by
    rw [ofText, Array.toArray_toList]
  rw [toText?, whole, String.fromUTF8?, dif_pos text.isValidUTF8]
  rfl

theorem not_mem_ofText (text : String) : 0xff ∉ ofText text := by
  rw [ofText_eq_flatMap, List.mem_flatMap]
  rintro ⟨c, _, member⟩
  have small {n : Nat} (below : n < 0xff) : (0xff : UInt8) ≠ UInt8.ofNat n := by
    intro same
    have values := congrArg UInt8.toNat same
    simp only [UInt8.reduceToNat, UInt8.toNat_ofNat'] at values
    omega
  have units : ∀ byte ∈ String.utf8EncodeChar c, (0xff : UInt8) ≠ byte := by
    unfold String.utf8EncodeChar
    dsimp only
    repeat' split
    all_goals
      simp only [List.mem_cons, List.not_mem_nil, or_false, forall_eq_or_imp, forall_eq]
      and_intros <;> exact small (by omega)
  exact units _ member rfl

end Bytes

namespace Hex

private theorem isBlank_digit : ∀ n < 16, Blank.isBlank (digit n) = false := by
  decide

theorem trim_encode (bytes : Bytes) : Blank.trim (encode bytes) = encode bytes :=
  Blank.trim_eq_self (forall_mem_encode isBlank_digit bytes)

end Hex

namespace Packet

/-- No text has the magic number in front. -/
theorem not_magic_prefix_ofText (text : String) : ¬ magic <+: Bytes.ofText text := by
  intro marked
  have marker : (0xff : UInt8) ∈ magic := by decide
  exact Bytes.not_mem_ofText text (marked.subset marker)

/-- A text is decoded as a text. -/
theorem decode_ofText (text : String) : decode (Bytes.ofText text) = ofText text := by
  have unmarked := mt List.isPrefixOf_iff_prefix.mp (not_magic_prefix_ofText text)
  rw [decode, if_neg unmarked, Bytes.toText?_ofText]

/-- The hexadecimal text of some bytes is decoded as they are. -/
theorem decode_encode (raw : Bytes) : decode (Bytes.ofText (Hex.encode raw)) = parse raw := by
  rw [decode_ofText, ofText, Hex.trim_encode, Hex.decode_encode]

/-- A packet that is decoded is read from some bytes. -/
theorem exists_parse_of_decode {data : Bytes} {packet : Packet}
    (decoded : decode data = .ok packet) : ∃ raw, parse raw = .ok packet := by
  unfold decode ofText at decoded
  split at decoded
  · exact ⟨data, decoded⟩
  · split at decoded
    · dsimp only at decoded
      split at decoded
      · exact ⟨_, decoded⟩
      · split at decoded
        · exact ⟨_, decoded⟩
        · cases decoded
    · cases decoded

theorem wellFormed_of_decode {data : Bytes} {packet : Packet}
    (decoded : decode data = .ok packet) : packet.WellFormed := by
  obtain ⟨raw, parsed⟩ := exists_parse_of_decode decoded
  exact (parse_eq_ok_iff.mp parsed).1

end Packet

end Custody
