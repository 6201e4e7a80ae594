import Custody.Proofs.Packet.Transport
import Custody.Proofs.Request.Signing

/-! # Signing sessions

A session takes a packet that was read or built, and signs it with some keys and records signatures
that came from elsewhere. Each of these is a log of writes to the signatures of the packet that it
finds, so a session is one log: whatever it does, the packet keeps all but its signatures, is
well-formed, and has under each key what was written last. Writes by different keys never meet, so
parties that only sign can do so in any order and any number of times.
-/

namespace Custody.Packet

open Secp256k1

/-- What a party does to a packet. -/
inductive Action where
  /-- Signs every input, up to the first that has no digest. -/
  | sign (key : SecretKey)
  /-- Records a signature on an input. -/
  | insert (index : Nat) (publicKey signature : Bytes)

/-- Whether a recorded signature can be read. -/
def Action.Valid : Action → Prop
  | .sign _ => True
  | .insert _ publicKey signature => ReadableSignature publicKey signature

/-- The packet that an action leaves. -/
def perform (packet : Packet) : Action → Packet
  | .sign key => (packet.sign key).1
  | .insert index publicKey signature =>
    match packet.insertSignature index publicKey signature with
    | .ok signed => signed
    | .error _ => packet

/-- The packet that a session leaves. -/
def run (packet : Packet) (actions : List Action) : Packet :=
  actions.foldl perform packet

/-- What an action writes. -/
def actionLog (packet : Packet) : Action → List Write
  | .sign key => packet.signLog key
  | .insert index publicKey signature =>
    if index < packet.inputs.length then [⟨index, publicKey, signature⟩] else []

/-- What the actions of a session write, each to the packet that it finds. -/
def writes (packet : Packet) : List Action → List Write
  | [] => []
  | action :: actions => packet.actionLog action ++ (packet.perform action).writes actions

variable {packet start : Packet} {action : Action} {actions : List Action}

section Insert

variable {index : Nat} (publicKey signature : Bytes)

theorem insertSignature_of_lt (inRange : index < packet.inputs.length) :
    packet.insertSignature index publicKey signature =
      .ok (packet.modifyInput index (·.sign publicKey signature)) := by
  rw [insertSignature, fields, List.getElem?_eq_getElem inRange]
  rfl

theorem insertSignature_of_le (outOfRange : packet.inputs.length ≤ index) :
    packet.insertSignature index publicKey signature = .error (.outOfRange index) := by
  rw [insertSignature, fields, List.getElem?_eq_none outOfRange]
  rfl

end Insert

section Step

/-- An action replays what it writes. -/
theorem perform_eq (packet : Packet) (action : Action) :
    packet.perform action = packet.replay (packet.actionLog action) := by
  cases action with
  | sign key => rw [perform, sign_eq, actionLog]
  | insert index publicKey signature =>
    rw [perform, actionLog]
    by_cases inRange : index < packet.inputs.length
    · rw [insertSignature_of_lt publicKey signature inRange, if_pos inRange]
      rfl
    · rw [insertSignature_of_le publicKey signature (Nat.not_lt.mp inRange), if_neg inRange]
      rfl

theorem actionLog_inRange (packet : Packet) (action : Action) :
    ∀ entry ∈ packet.actionLog action, entry.index < packet.inputs.length := by
  cases action with
  | sign key => exact packet.signLog_inRange key
  | insert index publicKey signature =>
    intro entry member
    rw [actionLog] at member
    split at member
    · rename_i inRange
      rw [List.mem_singleton.mp member]
      exact inRange
    · cases member

theorem readable_actionLog (valid : action.Valid) :
    ∀ entry ∈ packet.actionLog action, ReadableSignature entry.publicKey entry.signature := by
  intro entry member
  cases action with
  | sign key =>
    obtain ⟨index, _, rfl⟩ := List.mem_map.mp member
    exact packet.readableSignature_signatureBy key index
  | insert index publicKey signature =>
    rw [actionLog] at member
    split at member
    · rw [List.mem_singleton.mp member]
      exact valid
    · cases member

/-- An action changes nothing but signatures. -/
theorem bare_perform (packet : Packet) (action : Action) :
    (packet.perform action).bare = packet.bare := by
  rw [perform_eq, bare_replay]

end Step

section Run

/-- A session replays what its actions write. -/
theorem run_eq (packet : Packet) (actions : List Action) :
    packet.run actions = packet.replay (packet.writes actions) := by
  induction actions generalizing packet with
  | nil => rfl
  | cons action actions ih =>
    rw [writes, replay_append, ← perform_eq, ← ih]
    rfl

theorem writes_inRange (packet : Packet) (actions : List Action) :
    ∀ entry ∈ packet.writes actions, entry.index < packet.inputs.length := by
  induction actions generalizing packet with
  | nil => exact fun _ member => nomatch member
  | cons action actions ih =>
    intro entry member
    rcases List.mem_append.mp member with here | later
    · exact packet.actionLog_inRange action entry here
    · rw [← length_inputs_of_bare (packet.bare_perform action)]
      exact ih _ entry later

theorem readable_writes (valid : ∀ action ∈ actions, action.Valid) :
    ∀ entry ∈ packet.writes actions, ReadableSignature entry.publicKey entry.signature := by
  induction actions generalizing packet with
  | nil => exact fun _ member => nomatch member
  | cons action actions ih =>
    obtain ⟨here, later⟩ := List.forall_mem_cons.mp valid
    intro entry member
    rcases List.mem_append.mp member with written | written
    · exact readable_actionLog here entry written
    · exact ih later entry written

theorem WellFormed.run (wellFormed : packet.WellFormed)
    (valid : ∀ action ∈ actions, action.Valid) : (packet.run actions).WellFormed := by
  rw [run_eq]
  exact wellFormed.replay (packet.writes_inRange actions) (readable_writes valid)

end Run

section Session

/-- Whether a session can start with a packet: it was read or built. -/
inductive Opened (packet : Packet) : Prop where
  | parsed {raw : Bytes} (read : parse raw = .ok packet)
  | decoded {data : Bytes} (read : decode data = .ok packet)
  | built {request : Request} {clock : UInt64} (fits : ∀ coin ∈ request.coins, Fits coin.script)
    (built : request.build clock = .ok packet)

theorem Opened.wellFormed (opened : packet.Opened) : packet.WellFormed := by
  cases opened with
  | parsed read => exact (parse_eq_ok_iff.mp read).1
  | decoded read => exact wellFormed_of_decode read
  | built fits built =>
    obtain ⟨admissible, rfl⟩ := Request.build_eq_ok_iff.mp built
    exact Request.wellFormed_packet admissible fits

/-- Whether a packet tells of its transaction what another tells: all is the same but the
signatures. -/
structure Keeps (packet start : Packet) : Prop where
  transaction : packet.unsignedTx = start.unsignedTx
  globals : packet.globals = start.globals
  outputs : packet.outputs = start.outputs
  inputs : ∀ (index : Nat) (fields : InputFields), start.inputs[index]? = some fields →
    ∃ signatures, packet.inputs[index]? = some { fields with partialSignatures := signatures }
  hash : packet.hash = start.hash
  fee : packet.fee? = start.fee?
  inputCount : packet.inputCount = start.inputCount
  sanity : packet.checkSanity = start.checkSanity
  digests : ∀ index, packet.sighash index = start.sighash index

theorem keeps_of_bare (same : packet.bare = start.bare) : packet.Keeps start where
  transaction := congrArg (·.unsignedTx) same
  globals := congrArg (·.globals) same
  outputs := congrArg (·.outputs) same
  inputs := by
    intro index fields found
    have bare := congrArg (·.inputs[index]?) same
    simp only [getElem?_bare, found, Option.map_some, Option.map_eq_some_iff] at bare
    obtain ⟨fields', found', described⟩ := bare
    refine ⟨fields'.partialSignatures, found'.trans (congrArg some ?_)⟩
    exact InputFields.eq_of_bare described fun _ => rfl
  hash := by
    change packet.bare.hash = start.bare.hash
    rw [same]
  fee := by rw [← fee?_bare, same, fee?_bare]
  inputCount := length_inputs_of_bare same
  sanity := by rw [← checkSanity_bare, same, checkSanity_bare]
  digests := sighash_of_bare same

/-- Whatever a session does, the packet keeps all but its signatures, its written form is read as
the packet, and under each key is what was written last, or else what was there at the start.
Signing that fails has signed just the inputs in front of the first that has no digest, and
recording a signature out of range changes nothing. -/
theorem run_keeps (opened : start.Opened) (valid : ∀ action ∈ actions, action.Valid) :
    (start.run actions).Keeps start ∧
    (∃ raw, (start.run actions).marshal = .ok raw ∧ parse raw = .ok (start.run actions)) ∧
    (∀ index publicKey, (start.run actions).partialSignature? index publicKey =
      (last? (start.writes actions) index publicKey).or
        (start.partialSignature? index publicKey)) ∧
    (∀ key left failure, (start.run actions).sign key = (left, .error failure) →
      ∃ stop < start.inputs.length, start.sighash stop = .error failure ∧
        (∀ index < stop, ∃ digest, start.sighash index = .ok digest) ∧
        left = (start.run actions).signedFrom key 0 stop) ∧
    ∀ index publicKey signature, start.inputs.length ≤ index →
      (start.run actions).insertSignature index publicKey signature =
        .error (.outOfRange index) ∧
      (start.run actions).perform (.insert index publicKey signature) = start.run actions := by
  have same : (start.run actions).bare = start.bare := by rw [run_eq, bare_replay]
  have length := length_inputs_of_bare same
  have wellFormed : (start.run actions).WellFormed := opened.wellFormed.run valid
  refine ⟨keeps_of_bare same, ⟨_, wellFormed.marshal, wellFormed.parse_serialize⟩, ?_, ?_, ?_⟩
  · intro index publicKey
    rw [run_eq, partialSignature?_replay (start.writes_inRange actions)]
  · intro key left failure failed
    obtain ⟨stop, below, stops, digests, signed⟩ := sign_eq_error failed
    simp only [sighash_of_bare same] at stops digests
    exact ⟨stop, length ▸ below, stops, digests, signed⟩
  · intro index publicKey signature outOfRange
    have refused := insertSignature_of_le publicKey signature (length ▸ outOfRange)
    exact ⟨refused, by rw [perform, refused]⟩

/-- A session that records a signature of one byte, once in range and once out of range, and signs
over the first. -/
def session : List Action :=
  [.insert 1 Request.generatorScript [1], .insert 2 Request.generatorScript [2],
    .sign Request.unitKey]

theorem run_keeps_session :
    Request.settlement.packet.Opened ∧ (∀ action ∈ session, action.Valid) ∧
      (Request.settlement.packet.run session).Keeps Request.settlement.packet ∧
      ∃ raw, (Request.settlement.packet.run session).marshal = .ok raw ∧
        parse raw = .ok (Request.settlement.packet.run session) := by
  have opened : Request.settlement.packet.Opened :=
    .built Request.fits_settlement (Request.build_settlement 1700000000)
  have point : (Point.decode? Request.generatorScript).isSome := by decide +kernel
  have valid : ∀ action ∈ session, action.Valid := by
    simp only [session, List.forall_mem_cons]
    exact ⟨⟨point, List.cons_ne_nil _ _, fits_of_length_le (by decide)⟩,
      ⟨point, List.cons_ne_nil _ _, fits_of_length_le (by decide)⟩, trivial,
      fun _ member => nomatch member⟩
  obtain ⟨keeps, written, _⟩ := run_keeps opened valid
  exact ⟨opened, valid, keeps, written⟩

end Session

section Order

/-- Signs with some keys in turn, whether or not signing with those before failed. Returns the
packet that is left and what each signing returned. -/
def signEach (packet : Packet) : List SecretKey → Packet × List (Except Error Unit)
  | [] => (packet, [])
  | key :: keys =>
    let (signed, verdict) := packet.sign key
    let (left, verdicts) := signed.signEach keys
    (left, verdict :: verdicts)

variable {keys keys' : List SecretKey}

/-- All keys sign the same inputs, and none sees what those before have written. -/
theorem signEach_eq (packet : Packet) (keys : List SecretKey) :
    packet.signEach keys = (packet.replay (keys.flatMap packet.signLog),
      List.replicate keys.length packet.signVerdict) := by
  induction keys generalizing packet with
  | nil => rfl
  | cons key keys ih =>
    have same := packet.bare_replay (packet.signLog key)
    have logs : (packet.replay (packet.signLog key)).signLog = packet.signLog :=
      funext (signLog_of_bare same)
    rw [signEach, sign_eq]
    simp only [ih, logs, signVerdict_of_bare same, List.flatMap_cons, replay_append,
      List.length_cons, List.replicate_succ]

theorem signLogs_inRange (packet : Packet) (keys : List SecretKey) :
    ∀ entry ∈ keys.flatMap packet.signLog, entry.index < packet.inputs.length := by
  intro entry member
  obtain ⟨key, _, written⟩ := List.mem_flatMap.mp member
  exact packet.signLog_inRange key entry written

/-- Keys whose public keys differ do not write over each other. -/
private theorem agrees_signLogs (distinct : ∀ key ∈ keys, ∀ other ∈ keys,
    key.publicKey.bytes = other.publicKey.bytes → key = other) :
    Agrees (keys.flatMap packet.signLog) := by
  intro a memberA b memberB sameIndex sameKey
  obtain ⟨key, held, writtenA⟩ := List.mem_flatMap.mp memberA
  obtain ⟨other, held', writtenB⟩ := List.mem_flatMap.mp memberB
  have signer {signer : SecretKey} {entry : Write} (written : entry ∈ packet.signLog signer) :
      signer.publicKey.bytes = entry.publicKey := by
    obtain ⟨_, _, rfl⟩ := List.mem_map.mp written
    rfl
  obtain rfl := distinct key held other held'
    ((signer writtenA).trans (sameKey.trans (signer writtenB).symm))
  exact agrees_signLog a writtenA b writtenB sameIndex sameKey

/-- Whatever the packet, the same keys leave the same packet in any order and any number of times,
and all of them are told the same, if different keys have different public keys. -/
theorem signEach_order (same : ∀ key, key ∈ keys ↔ key ∈ keys')
    (distinct : ∀ key ∈ keys, ∀ other ∈ keys,
      key.publicKey.bytes = other.publicKey.bytes → key = other) :
    ∃ left verdict, packet.signEach keys = (left, List.replicate keys.length verdict) ∧
      packet.signEach keys' = (left, List.replicate keys'.length verdict) := by
  refine ⟨_, _, packet.signEach_eq keys, (packet.signEach_eq keys').trans ?_⟩
  have members (entry : Write) :
      entry ∈ keys.flatMap packet.signLog ↔ entry ∈ keys'.flatMap packet.signLog := by
    simp only [List.mem_flatMap, same]
  congr 1
  refine eq_of_bare ((packet.bare_replay _).trans (packet.bare_replay _).symm) ?_
  intro index publicKey
  rw [partialSignature?_replay (packet.signLogs_inRange keys'),
    partialSignature?_replay (packet.signLogs_inRange keys),
    last?_eq_of_mem_iff members (agrees_signLogs distinct)]

/-- The secret key of twice the generator. -/
def doubleKey : SecretKey :=
  ⟨2, by decide, by decide⟩

theorem signEach_order_settlement :
    ∃ left verdict,
      Request.settlement.packet.signEach [Request.unitKey, doubleKey] =
        (left, List.replicate 2 verdict) ∧
      Request.settlement.packet.signEach [doubleKey, Request.unitKey, doubleKey] =
        (left, List.replicate 3 verdict) := by
  have apart : Request.unitKey.publicKey.bytes ≠ doubleKey.publicKey.bytes := by decide +kernel
  refine signEach_order (fun key => ?_) ?_
  · simp only [List.mem_cons, List.not_mem_nil, or_false]
    tauto
  · intro key held other held' same
    simp only [List.mem_cons, List.not_mem_nil, or_false] at held held'
    rcases held with rfl | rfl <;> rcases held' with rfl | rfl
    · rfl
    · exact absurd same apart
    · exact absurd same.symm apart
    · rfl

end Order

end Custody.Packet
