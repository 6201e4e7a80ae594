import Custody.Packet.Digest
import Custody.Proofs.Packet.RoundTrip

/-! # Packets without their signatures

Everything that a packet tells of its transaction is told without the signatures on it: identifier,
fee, consistency and digests are those of the bare packet. A packet is determined by the bare packet
and the signatures, and it is well-formed when the bare packet is and each signature can be read.
-/

namespace Custody

open Secp256k1

namespace InputFields

/-- The fields without signatures. -/
def bare (fields : InputFields) : InputFields :=
  { fields with partialSignatures := KeyMap.empty }

@[simp] theorem bare_sign (fields : InputFields) (publicKey signature : Bytes) :
    (fields.sign publicKey signature).bare = fields.bare := rfl

theorem eq_of_bare {a b : InputFields} (rest : a.bare = b.bare)
    (signatures : ∀ publicKey,
      a.partialSignatures.get? publicKey = b.partialSignatures.get? publicKey) : a = b := by
  have map : a.partialSignatures = b.partialSignatures := KeyMap.eq_of_get? signatures
  cases a
  cases b
  simp_all [bare]

/-- A value in the map of some fields is a signature, or it is there without the signatures. -/
theorem mem_entries_toMap_cases {fields : InputFields} {entry : Bytes × Bytes}
    (member : entry ∈ fields.toMap.entries) :
    (∃ signature ∈ fields.partialSignatures.entries,
      entry = (signatureKey :: signature.1, signature.2)) ∨
      entry ∈ fields.bare.toMap.entries := by
  obtain ⟨key, value⟩ := entry
  rw [← KeyMap.get?_eq_some_iff, get?_toMap] at member ⊢
  cases key with
  | nil => exact .inr member
  | cons keyType data =>
    by_cases signature : keyType = signatureKey
    · subst signature
      have typed : fields.typed? (signatureKey :: data) = fields.partialSignatures.get? data := rfl
      rw [typed, Option.or_eq_some_iff] at member
      rcases member with signed | ⟨_, carried⟩
      · exact .inl ⟨(data, value), KeyMap.get?_eq_some_iff.mp signed, rfl⟩
      · exact .inr carried
    · simp only [typed?, signature, ↓reduceIte] at member ⊢
      exact .inr member

theorem mem_entries_toMap_of_signature {fields : InputFields} {signature : Bytes × Bytes}
    (member : signature ∈ fields.partialSignatures.entries) :
    (signatureKey :: signature.1, signature.2) ∈ fields.toMap.entries := by
  have typed : fields.typed? (signatureKey :: signature.1) = some signature.2 :=
    KeyMap.get?_eq_some_iff.mpr member
  rw [← KeyMap.get?_eq_some_iff, get?_toMap, typed, Option.some_or]

/-- The values that are there without signatures stay under them, if no carried entry has the key of
a signature. -/
theorem mem_entries_toMap_of_bare {fields : InputFields}
    (carried : ∀ entry ∈ fields.unknown.entries, ∀ keyType ∈ entry.1.head?, ¬ Reserved keyType)
    {entry : Bytes × Bytes} (member : entry ∈ fields.bare.toMap.entries) :
    entry ∈ fields.toMap.entries := by
  obtain ⟨key, value⟩ := entry
  rw [← KeyMap.get?_eq_some_iff, get?_toMap] at member ⊢
  cases key with
  | nil => exact member
  | cons keyType data =>
    by_cases signature : keyType = signatureKey
    · subst signature
      have held : fields.unknown.get? (signatureKey :: data) = some value := member
      exact absurd (.inr (.inl rfl)) (carried _ (KeyMap.get?_eq_some_iff.mp held) _ rfl)
    · simp only [typed?, signature, ↓reduceIte] at member ⊢
      exact member

end InputFields

namespace Packet

variable {packet : Packet}

/-- The packet without signatures. -/
def bare (packet : Packet) : Packet :=
  { packet with inputs := packet.inputs.map InputFields.bare }

theorem getElem?_bare (packet : Packet) (index : Nat) :
    packet.bare.inputs[index]? = packet.inputs[index]?.map InputFields.bare :=
  List.getElem?_map

theorem length_inputs_bare (packet : Packet) : packet.bare.inputs.length = packet.inputs.length :=
  List.length_map _

theorem preimage_bare (packet : Packet) (index : Nat) :
    packet.bare.preimage index = packet.preimage index := by
  simp only [preimage, getElem?_bare]
  cases packet.inputs[index]? <;> rfl

/-- A digest does not commit to signatures. -/
theorem sighash_bare (packet : Packet) (index : Nat) :
    packet.bare.sighash index = packet.sighash index := by
  rw [sighash, sighash, preimage_bare]

theorem fee?_bare (packet : Packet) : packet.bare.fee? = packet.fee? := by
  have total : packet.bare.inputTotal? = packet.inputTotal? := by
    rw [inputTotal?, inputTotal?, bare, List.mapM_map]
    rfl
  simp only [fee?, total]
  rfl

private theorem checkScripts_bare (index : Nat) (inputs : List InputFields) :
    checkScripts index (inputs.map InputFields.bare) = checkScripts index inputs := by
  induction inputs generalizing index with
  | nil => rfl
  | cons fields inputs ih =>
    rw [List.map_cons, checkScripts, checkScripts, ih]
    rfl

theorem checkSanity_bare (packet : Packet) : packet.bare.checkSanity = packet.checkSanity := by
  simp only [checkSanity, bare, List.length_map, checkScripts_bare]

/-- A signature on one input is nothing without signatures. -/
theorem bare_modifyInput_sign (packet : Packet) (index : Nat) (publicKey signature : Bytes) :
    (packet.modifyInput index (·.sign publicKey signature)).bare = packet.bare := by
  have inputs : (packet.inputs.modify index (·.sign publicKey signature)).map InputFields.bare =
      packet.inputs.map InputFields.bare := by
    apply List.ext_getElem?
    intro place
    rw [List.getElem?_map, List.getElem?_map, List.getElem?_modify]
    cases packet.inputs[place]? with
    | none => rfl
    | some fields =>
      by_cases here : index = place
      · simp [here]
      · simp [here]
  simp only [bare, modifyInput, inputs]

/-- A packet is determined by what it is without signatures and by its signatures. -/
theorem eq_of_bare {a b : Packet} (rest : a.bare = b.bare)
    (signatures : ∀ index publicKey,
      a.partialSignature? index publicKey = b.partialSignature? index publicKey) : a = b := by
  have inputs : a.inputs = b.inputs := by
    apply List.ext_getElem?
    intro index
    have bare := congrArg (·.inputs[index]?) rest
    have signed := signatures index
    simp only [getElem?_bare] at bare
    simp only [partialSignature?] at signed
    cases foundA : a.inputs[index]? with
    | none =>
      rw [foundA, Option.map_none, eq_comm, Option.map_eq_none_iff] at bare
      exact bare.symm
    | some fields =>
      rw [foundA, Option.map_some, eq_comm, Option.map_eq_some_iff] at bare
      obtain ⟨fields', foundB, same⟩ := bare
      rw [foundB]
      simp only [foundA, foundB, Option.bind_some] at signed
      rw [InputFields.eq_of_bare same.symm signed]
  cases a
  cases b
  simp_all [bare]

theorem partialSignature?_eq_some_iff {index : Nat} {publicKey signature : Bytes} :
    packet.partialSignature? index publicKey = some signature ↔
      ∃ fields, packet.inputs[index]? = some fields ∧
        (publicKey, signature) ∈ fields.partialSignatures.entries := by
  simp only [partialSignature?, Option.bind_eq_some_iff, KeyMap.get?_eq_some_iff]

theorem partialSignature?_eq_none
    (blank : ∀ fields ∈ packet.inputs, fields.partialSignatures = KeyMap.empty) (index : Nat)
    (publicKey : Bytes) : packet.partialSignature? index publicKey = none := by
  rw [Option.eq_none_iff_forall_ne_some]
  intro signature found
  obtain ⟨fields, known, member⟩ := partialSignature?_eq_some_iff.mp found
  rw [blank fields (List.mem_of_getElem? known)] at member
  cases member

/-- Whether a signature can be read as an entry under a public key. -/
structure ReadableSignature (publicKey signature : Bytes) : Prop where
  signer : (Point.decode? publicKey).isSome
  signed : signature ≠ []
  fits : Fits signature

theorem fits_of_isSome_decode? {publicKey : Bytes}
    (point : (Point.decode? publicKey).isSome) : Fits (InputFields.signatureKey :: publicKey) := by
  obtain ⟨point, read⟩ := Option.isSome_iff_exists.mp point
  refine fits_of_length_le ?_
  rw [List.length_cons]
  rcases Point.length_of_decode? read with length | length <;> omega

/-- A packet is well-formed if it is so without signatures and each signature can be read. -/
theorem wellFormed_iff_bare :
    packet.WellFormed ↔
      packet.bare.WellFormed ∧
        ∀ index publicKey signature, packet.partialSignature? index publicKey = some signature →
          ReadableSignature publicKey signature := by
  constructor
  · intro wellFormed
    obtain ⟨keyedGlobals, keyedInputs, keyedOutputs⟩ := forall_mem_maps.mp wellFormed.keyed
    obtain ⟨fitsGlobals, fitsInputs, fitsOutputs⟩ := forall_mem_maps.mp wellFormed.fits
    have held {fields : InputFields} (member : fields ∈ packet.inputs) {entry : Bytes × Bytes}
        (there : entry ∈ fields.bare.toMap.entries) : entry ∈ fields.toMap.entries :=
      InputFields.mem_entries_toMap_of_bare (wellFormed.carried fields member) there
    refine ⟨{
      unsigned := wellFormed.unsigned
      inputMaps := packet.length_inputs_bare.trans wellFormed.inputMaps
      outputMaps := wellFormed.outputMaps
      keyed := forall_mem_maps.mpr ⟨keyedGlobals, List.forall_mem_map.mpr
        fun fields member entry there => keyedInputs fields member entry (held member there),
        keyedOutputs⟩
      transaction := wellFormed.transaction
      carried := List.forall_mem_map.mpr wellFormed.carried
      signers := List.forall_mem_map.mpr fun _ _ _ signed => nomatch signed
      signatures := List.forall_mem_map.mpr fun _ _ _ signed => nomatch signed
      fits := forall_mem_maps.mpr ⟨fitsGlobals, List.forall_mem_map.mpr
        fun fields member entry there => fitsInputs fields member entry (held member there),
        fitsOutputs⟩ }, fun index publicKey signature present => ?_⟩
    obtain ⟨fields, found, signed⟩ := partialSignature?_eq_some_iff.mp present
    have member := List.mem_of_getElem? found
    exact ⟨wellFormed.signers fields member _ signed, wellFormed.signatures fields member _ signed,
      (fitsInputs fields member _ (InputFields.mem_entries_toMap_of_signature signed)).2⟩
  · rintro ⟨wellFormed, readable⟩
    obtain ⟨keyedGlobals, keyedInputs, keyedOutputs⟩ := forall_mem_maps.mp wellFormed.keyed
    obtain ⟨fitsGlobals, fitsInputs, fitsOutputs⟩ := forall_mem_maps.mp wellFormed.fits
    have read : ∀ fields ∈ packet.inputs, ∀ entry ∈ fields.partialSignatures.entries,
        ReadableSignature entry.1 entry.2 := by
      intro fields member entry signed
      obtain ⟨index, found⟩ := List.mem_iff_getElem?.mp member
      exact readable index _ _ (partialSignature?_eq_some_iff.mpr ⟨fields, found, signed⟩)
    have keyed : ∀ fields ∈ packet.inputs, ∀ entry ∈ fields.toMap.entries, entry.1 ≠ [] := by
      intro fields member entry held
      rcases InputFields.mem_entries_toMap_cases held with ⟨signature, signed, rfl⟩ | there
      · exact List.cons_ne_nil _ _
      · exact keyedInputs _ (List.mem_map_of_mem member) entry there
    have fits : ∀ fields ∈ packet.inputs, ∀ entry ∈ fields.toMap.entries,
        Fits entry.1 ∧ Fits entry.2 := by
      intro fields member entry held
      rcases InputFields.mem_entries_toMap_cases held with ⟨signature, signed, rfl⟩ | there
      · have signature := read fields member signature signed
        exact ⟨fits_of_isSome_decode? signature.signer, signature.fits⟩
      · exact fitsInputs _ (List.mem_map_of_mem member) entry there
    exact {
      unsigned := wellFormed.unsigned
      inputMaps := packet.length_inputs_bare.symm.trans wellFormed.inputMaps
      outputMaps := wellFormed.outputMaps
      keyed := forall_mem_maps.mpr ⟨keyedGlobals, keyed, keyedOutputs⟩
      transaction := wellFormed.transaction
      carried := List.forall_mem_map.mp wellFormed.carried
      signers := fun fields member entry signed => (read fields member entry signed).signer
      signatures := fun fields member entry signed => (read fields member entry signed).signed
      fits := forall_mem_maps.mpr ⟨fitsGlobals, fits, fitsOutputs⟩ }

end Packet

end Custody
