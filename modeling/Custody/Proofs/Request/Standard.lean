import Custody.Proofs.Packet.Standard
import Custody.Proofs.Session

/-! # Built packets in other software

Other software reads a built packet and writes it as it is. It does not read one with signatures as
they are left by signing, which have no sighash type; once each of them is recorded again with the
sighash type behind it, the packet is read and written as it is.
-/

namespace Custody

open Secp256k1

namespace Packet

variable {packet : Packet} {actions : List Action}

section Finish

/-- Whether actions record every signature of a packet again, with the sighash type behind it, and
do nothing else. -/
def Finishes (packet : Packet) (actions : List Action) : Prop :=
  ∀ action, action ∈ actions ↔ ∃ index publicKey signature,
    packet.partialSignature? index publicKey = some signature ∧
      action = .insert index publicKey (signature ++ [0x81])

/-- Every signature of a packet with the sighash type behind it, input by input. -/
def finishing (packet : Packet) : List Action :=
  packet.inputs.zipIdx.flatMap fun (fields, index) =>
    fields.partialSignatures.entries.map fun (publicKey, signature) =>
      .insert index publicKey (signature ++ [0x81])

theorem finishes_finishing (packet : Packet) : packet.Finishes packet.finishing := by
  intro action
  simp only [finishing, List.mem_flatMap, List.mem_map, Prod.exists, List.mem_zipIdx_iff_getElem?,
    partialSignature?_eq_some_iff]
  constructor
  · rintro ⟨fields, index, found, publicKey, signature, member, rfl⟩
    exact ⟨index, publicKey, signature, ⟨fields, found, member⟩, rfl⟩
  · rintro ⟨index, publicKey, signature, ⟨fields, found, member⟩, rfl⟩
    exact ⟨fields, index, found, publicKey, signature, member, rfl⟩

/-- Recording signatures writes them, as far as their inputs are there. -/
theorem mem_writes_of_inserts_iff {entry : Write}
    (inserts : ∀ action ∈ actions, ∃ index publicKey signature,
      action = .insert index publicKey signature) :
    entry ∈ packet.writes actions ↔ entry.index < packet.inputs.length ∧
      .insert entry.index entry.publicKey entry.signature ∈ actions := by
  induction actions generalizing packet with
  | nil => simp [writes]
  | cons action actions ih =>
    obtain ⟨⟨index, publicKey, signature, rfl⟩, later⟩ := List.forall_mem_cons.mp inserts
    have here : entry ∈ packet.actionLog (.insert index publicKey signature) ↔
        entry.index < packet.inputs.length ∧
          Action.insert entry.index entry.publicKey entry.signature =
            .insert index publicKey signature := by
      obtain ⟨index', publicKey', signature'⟩ := entry
      rw [actionLog]
      split
      · rename_i inRange
        simp only [List.mem_singleton, Write.mk.injEq, Action.insert.injEq]
        constructor
        · rintro ⟨rfl, rfl, rfl⟩
          exact ⟨inRange, rfl, rfl, rfl⟩
        · exact And.right
      · rename_i outOfRange
        simp only [List.not_mem_nil, Action.insert.injEq, false_iff]
        rintro ⟨inRange, rfl, _⟩
        exact outOfRange inRange
    rw [writes, List.mem_append, ih later, List.mem_cons,
      length_inputs_of_bare (packet.bare_perform _), here, and_or_left]

/-- What is written are the signatures, with the sighash type behind them. -/
theorem Finishes.mem_writes_iff (finishes : packet.Finishes actions) {entry : Write} :
    entry ∈ packet.writes actions ↔ ∃ signature,
      packet.partialSignature? entry.index entry.publicKey = some signature ∧
        entry.signature = signature ++ [0x81] := by
  have inserts : ∀ action ∈ actions, ∃ index publicKey signature,
      action = .insert index publicKey signature := by
    intro action member
    obtain ⟨index, publicKey, signature, _, same⟩ := (finishes action).mp member
    exact ⟨index, publicKey, _, same⟩
  rw [mem_writes_of_inserts_iff inserts, finishes]
  constructor
  · rintro ⟨_, _, _, signature, held, same⟩
    obtain ⟨rfl, rfl, value⟩ := Action.insert.inj same
    exact ⟨signature, held, value⟩
  · rintro ⟨signature, held, same⟩
    obtain ⟨fields, found, _⟩ := Option.bind_eq_some_iff.mp held
    exact ⟨(List.getElem?_eq_some_iff.mp found).1, _, _, signature, held, by rw [same]⟩

theorem Finishes.agrees_writes (finishes : packet.Finishes actions) :
    Agrees (packet.writes actions) := by
  rintro ⟨index, publicKey, _⟩ memberA ⟨_, _, _⟩ memberB rfl rfl
  obtain ⟨signature, held, rfl⟩ := finishes.mem_writes_iff.mp memberA
  obtain ⟨signature', held', rfl⟩ := finishes.mem_writes_iff.mp memberB
  rw [Option.some.inj (held.symm.trans held')]

/-- Recorded again, each signature has the sighash type behind it. -/
theorem Finishes.partialSignature?_run (finishes : packet.Finishes actions) (index : Nat)
    (publicKey : Bytes) :
    (packet.run actions).partialSignature? index publicKey =
      (packet.partialSignature? index publicKey).map (· ++ [0x81]) := by
  rw [run_eq, partialSignature?_replay (packet.writes_inRange actions)]
  cases held : packet.partialSignature? index publicKey with
  | some signature =>
    have written : ⟨index, publicKey, signature ++ [0x81]⟩ ∈ packet.writes actions :=
      finishes.mem_writes_iff.mpr ⟨signature, held, rfl⟩
    rw [last?_eq_some written finishes.agrees_writes]
    rfl
  | none =>
    cases latest : last? (packet.writes actions) index publicKey with
    | none => rfl
    | some signature =>
      obtain ⟨_, held', _⟩ := finishes.mem_writes_iff.mp (mem_of_last?_eq_some latest)
      rw [held] at held'
      cases held'

end Finish

theorem bare_signEach (packet : Packet) (keys : List SecretKey) :
    (packet.signEach keys).1.bare = packet.bare := by
  rw [signEach_eq, bare_replay]

theorem WellFormed.signEach (wellFormed : packet.WellFormed) (keys : List SecretKey) :
    (packet.signEach keys).1.WellFormed := by
  rw [signEach_eq]
  refine wellFormed.replay (packet.signLogs_inRange keys) fun entry member => ?_
  obtain ⟨key, _, written⟩ := List.mem_flatMap.mp member
  obtain ⟨index, _, rfl⟩ := List.mem_map.mp written
  exact packet.readableSignature_signatureBy key index

/-- If all inputs have digests, there is a signature by every key on every input. -/
theorem Signable.exists_partialSignature?_signEach (signable : packet.Signable)
    {keys : List SecretKey} {key : SecretKey} (member : key ∈ keys) {index : Nat}
    (below : index < packet.inputs.length) :
    ∃ signature, (packet.signEach keys).1.partialSignature? index key.publicKey.bytes =
      some signature := by
  have reached : index ∈ packet.digested := by
    rw [signable.digested_eq]
    exact List.mem_range.mpr below
  have written : ⟨index, key.publicKey.bytes, packet.signatureBy key index⟩ ∈
      keys.flatMap packet.signLog :=
    List.mem_flatMap.mpr ⟨key, member, List.mem_map.mpr ⟨index, reached, rfl⟩⟩
  obtain ⟨signature, latest⟩ := exists_last?_eq_some written
  rw [signEach_eq, partialSignature?_replay (packet.signLogs_inRange keys), latest]
  exact ⟨signature, rfl⟩

/-- Whether every signature is without a sighash type, under a compressed key. -/
def Unmarked (packet : Packet) : Prop :=
  ∀ index publicKey signature, packet.partialSignature? index publicKey = some signature →
    ∃ (key : PublicKey) (made : Signature), key.bytes = publicKey ∧ made.der = signature

/-- The signatures that keys leave are without a sighash type. -/
theorem unmarked_signEach
    (blank : ∀ fields ∈ packet.inputs, fields.partialSignatures = KeyMap.empty)
    (keys : List SecretKey) : (packet.signEach keys).1.Unmarked := by
  intro index publicKey signature held
  rw [signEach_eq, partialSignature?_replay (packet.signLogs_inRange keys),
    packet.partialSignature?_eq_none blank, Option.or_none] at held
  obtain ⟨key, _, written⟩ := List.mem_flatMap.mp (mem_of_last?_eq_some held)
  obtain ⟨place, _, same⟩ := List.mem_map.mp written
  obtain ⟨rfl, rfl, rfl⟩ := Write.mk.inj same
  exact ⟨key.publicKey, _, rfl, rfl⟩

/-- With a signature that is without a sighash type a packet is refused. -/
theorem Unmarked.exists_error (unmarked : packet.Unmarked) (wellFormed : packet.WellFormed)
    (spends : packet.unsignedTx.inputs ≠ []) {index : Nat} {publicKey signature : Bytes}
    (held : packet.partialSignature? index publicKey = some signature) :
    ∃ failure, packet.toStandard = .error failure := by
  obtain ⟨_, made, _, rfl⟩ := unmarked index publicKey signature held
  exact ⟨_, wellFormed.toStandard_eq_error spends held (signature_der made)⟩

/-- With the sighash type behind every signature a packet passes. -/
theorem Unmarked.exists_toStandard_run (unmarked : packet.Unmarked) (wellFormed : packet.WellFormed)
    (spends : packet.unsignedTx.inputs ≠ []) (carriesNothing : packet.CarriesNothing)
    (finishes : packet.Finishes actions) :
    ∃ raw, (packet.run actions).marshal = .ok raw ∧ (packet.run actions).toStandard = .ok raw ∧
      (packet.run actions).throughStandard = .ok (packet.run actions) := by
  have bare : (packet.run actions).bare = packet.bare := by rw [run_eq, bare_replay]
  have transaction : (packet.run actions).unsignedTx = packet.unsignedTx :=
    congrArg (·.unsignedTx) bare
  have valid : ∀ action ∈ actions, action.Valid := by
    intro action member
    obtain ⟨index, publicKey, signature, held, rfl⟩ := (finishes action).mp member
    obtain ⟨key, made, rfl, rfl⟩ := unmarked index publicKey signature held
    have short := made.length_der_le
    refine ⟨by rw [decode?_bytes]; rfl, by simp, fits_of_length_le ?_⟩
    rw [List.length_append, List.length_singleton]
    omega
  have inForm : ∀ index publicKey signature,
      (packet.run actions).partialSignature? index publicKey = some signature →
        InForm publicKey signature := by
    intro index publicKey signature held
    rw [finishes.partialSignature?_run, Option.map_eq_some_iff] at held
    obtain ⟨bareSignature, held, rfl⟩ := held
    obtain ⟨key, made, rfl, rfl⟩ := unmarked index publicKey bareSignature held
    exact ⟨⟨key, rfl⟩, signature_der_append made rfl⟩
  exact (wellFormed.run valid).exists_toStandard (transaction ▸ spends)
    (carriesNothing.of_bare bare) inForm

end Packet

namespace Request

variable {request : Request} {packet : Packet} {clock : UInt64}

theorem carriesNothing_packet (request : Request) : request.packet.CarriesNothing where
  globals := rfl
  inputs _ member := (blank_of_mem_inputs member).1
  outputs := List.forall_mem_map.mpr fun _ _ => rfl

/-- Other software keeps a built packet as it is, until it is signed: the bytes that it writes are
those of the packet, and read as the packet. Signing with some keys succeeds and leaves a packet
that other software refuses. Recording every signature again with the sighash type behind it, in any
order, changes no signature otherwise, and the packet is kept as it is again. -/
theorem toStandard_exact (fits : ∀ coin ∈ request.coins, Packet.Fits coin.script)
    (built : request.build clock = .ok packet) :
    (∃ raw, packet.marshal = .ok raw ∧ packet.toStandard = .ok raw ∧
      packet.throughStandard = .ok packet) ∧
    ∀ keys ≠ [], ∃ signed,
      packet.signEach keys = (signed, List.replicate keys.length (.ok ())) ∧
      (∃ failure, signed.toStandard = .error failure) ∧
      signed.Finishes signed.finishing ∧
      ∀ actions, signed.Finishes actions →
        (∀ index publicKey, (signed.run actions).partialSignature? index publicKey =
          (signed.partialSignature? index publicKey).map (· ++ [0x81])) ∧
        ∃ raw, (signed.run actions).marshal = .ok raw ∧
          (signed.run actions).toStandard = .ok raw ∧
          (signed.run actions).throughStandard = .ok (signed.run actions) := by
  obtain ⟨admissible, rfl⟩ := build_eq_ok_iff.mp built
  have wellFormed := wellFormed_packet admissible fits
  have signable := signable_packet admissible
  have blank : ∀ fields ∈ request.packet.inputs, fields.partialSignatures = KeyMap.empty :=
    fun _ member => (blank_of_mem_inputs member).2
  have spends : request.packet.unsignedTx.inputs ≠ [] := by
    rw [Request.packet, transaction, ne_eq, List.map_eq_nil_iff]
    exact admissible.spends
  refine ⟨wellFormed.exists_toStandard spends request.carriesNothing_packet ?_, ?_⟩
  · intro index publicKey signature held
    rw [request.packet.partialSignature?_eq_none blank] at held
    cases held
  · intro keys some
    obtain ⟨key, member⟩ := List.exists_mem_of_ne_nil keys some
    obtain ⟨signed, same⟩ : ∃ signed, (request.packet.signEach keys).1 = signed := ⟨_, rfl⟩
    have bare : signed.bare = request.packet.bare := same ▸ request.packet.bare_signEach keys
    have wellFormed' : signed.WellFormed := same ▸ wellFormed.signEach keys
    have spends' : signed.unsignedTx.inputs ≠ [] := by
      have transaction : signed.unsignedTx = request.packet.unsignedTx :=
        congrArg (·.unsignedTx) bare
      rwa [transaction]
    have unmarked : signed.Unmarked := same ▸ Packet.unmarked_signEach blank keys
    have first : 0 < request.packet.inputs.length := by
      rw [wellFormed.inputMaps]
      exact List.length_pos_iff.mpr spends
    obtain ⟨signature, held⟩ := signable.exists_partialSignature?_signEach member first
    rw [same] at held
    refine ⟨signed, ?_, unmarked.exists_error wellFormed' spends' held, signed.finishes_finishing,
      fun actions finishes => ⟨finishes.partialSignature?_run,
        unmarked.exists_toStandard_run wellFormed' spends'
          (request.carriesNothing_packet.of_bare bare) finishes⟩⟩
    refine Prod.ext same ?_
    rw [Packet.signEach_eq, Packet.signVerdict_eq_ok_iff.mpr signable]

theorem toStandard_exact_settlement :
    (∀ coin ∈ settlement.coins, Packet.Fits coin.script) ∧
      settlement.build 1700000000 = .ok settlement.packet ∧
      settlement.packet.throughStandard = .ok settlement.packet ∧
      ∃ signed,
        settlement.packet.signEach [unitKey, Packet.doubleKey] = (signed, [.ok (), .ok ()]) ∧
        (∃ failure, signed.toStandard = .error failure) ∧
        (signed.run signed.finishing).throughStandard = .ok (signed.run signed.finishing) := by
  have built := build_settlement 1700000000
  obtain ⟨⟨_, _, _, unsigned⟩, signing⟩ := toStandard_exact fits_settlement built
  obtain ⟨signed, signs, refused, finishes, finished⟩ :=
    signing [unitKey, Packet.doubleKey] (List.cons_ne_nil _ _)
  obtain ⟨_, _, _, _, passes⟩ := finished _ finishes
  exact ⟨fits_settlement, built, unsigned, signed, signs, refused, passes⟩

end Request

end Custody
