import Custody.Packet.Signing
import Custody.Proofs.Except
import Custody.Proofs.Packet.Bare
import Mathlib.Data.List.TakeWhile

/-! # Signing is writing to the signatures

What signing and inserting do to a packet is a log of writes to its signatures. Replaying a log
changes nothing but signatures, and leaves under each key what the log wrote last. Signing writes to
the inputs in front of the first that has no digest, whatever signatures are there already.
-/

namespace Custody.Packet

open Secp256k1

variable {packet : Packet}

/-- A signature that is left on an input. -/
structure Write where
  index : Nat
  publicKey : Bytes
  signature : Bytes

/-- What a write leaves under a public key on an input. -/
def Write.value? (entry : Write) (index : Nat) (publicKey : Bytes) : Option Bytes :=
  if entry.index = index ∧ entry.publicKey = publicKey then some entry.signature else none

/-- The signature that a log writes last under a public key on an input. -/
def last? (log : List Write) (index : Nat) (publicKey : Bytes) : Option Bytes :=
  (log.filterMap (·.value? index publicKey)).getLast?

/-- The packet after a write. -/
def write (packet : Packet) (entry : Write) : Packet :=
  packet.modifyInput entry.index (·.sign entry.publicKey entry.signature)

/-- The packet after the writes of a log. -/
def replay (packet : Packet) (log : List Write) : Packet :=
  log.foldl write packet

section Replay

variable {log : List Write} {index : Nat} {publicKey : Bytes}

theorem replay_append (packet : Packet) (first second : List Write) :
    packet.replay (first ++ second) = (packet.replay first).replay second :=
  List.foldl_append

theorem bare_replay (packet : Packet) (log : List Write) :
    (packet.replay log).bare = packet.bare := by
  induction log generalizing packet with
  | nil => rfl
  | cons entry log ih => exact (ih _).trans (packet.bare_modifyInput_sign _ _ _)

theorem length_inputs_of_bare {a b : Packet} (same : a.bare = b.bare) :
    a.inputs.length = b.inputs.length := by
  rw [← length_inputs_bare, same, length_inputs_bare]

theorem partialSignature?_write {entry : Write} (inRange : entry.index < packet.inputs.length)
    (index : Nat) (publicKey : Bytes) :
    (packet.write entry).partialSignature? index publicKey =
      (entry.value? index publicKey).or (packet.partialSignature? index publicKey) := by
  simp only [partialSignature?, write, modifyInput, List.getElem?_modify, Write.value?]
  by_cases here : entry.index = index
  · subst here
    simp only [List.getElem?_eq_getElem inRange, InputFields.sign, KeyMap.get?_insert, true_and,
      ↓reduceIte, Option.map_eq_map, Option.map_some, Option.bind_some]
    by_cases same : publicKey = entry.publicKey
    · simp [same]
    · simp [same, eq_comm]
  · simp [here]

/-- After a log there is under each key what was written last, or else what was there before. -/
theorem partialSignature?_replay (inRange : ∀ entry ∈ log, entry.index < packet.inputs.length)
    (index : Nat) (publicKey : Bytes) :
    (packet.replay log).partialSignature? index publicKey =
      (last? log index publicKey).or (packet.partialSignature? index publicKey) := by
  induction log generalizing packet with
  | nil => rfl
  | cons entry log ih =>
    obtain ⟨here, later⟩ := List.forall_mem_cons.mp inRange
    have length : (packet.write entry).inputs.length = packet.inputs.length :=
      length_inputs_of_bare (packet.bare_replay [entry])
    change ((packet.write entry).replay log).partialSignature? index publicKey = _
    rw [ih (fun entry member => length ▸ later entry member), partialSignature?_write here, last?,
      last?, List.filterMap_cons]
    cases entry.value? index publicKey with
    | none => rfl
    | some signature =>
      cases latest : (log.filterMap (·.value? index publicKey)).getLast? <;>
        simp [List.getLast?_cons, latest]

theorem value?_eq_some_iff {entry : Write} {signature : Bytes} :
    entry.value? index publicKey = some signature ↔ entry = ⟨index, publicKey, signature⟩ := by
  cases entry
  simp [Write.value?, and_assoc]

theorem mem_of_last?_eq_some {signature : Bytes}
    (written : last? log index publicKey = some signature) :
    ⟨index, publicKey, signature⟩ ∈ log := by
  obtain ⟨entry, member, value⟩ := List.mem_filterMap.mp (List.mem_of_getLast? written)
  rwa [value?_eq_some_iff.mp value] at member

/-- A packet stays well-formed if each signature that is written can be read. -/
theorem WellFormed.replay (wellFormed : packet.WellFormed)
    (inRange : ∀ entry ∈ log, entry.index < packet.inputs.length)
    (readable : ∀ entry ∈ log, ReadableSignature entry.publicKey entry.signature) :
    (packet.replay log).WellFormed := by
  obtain ⟨bare, present⟩ := wellFormed_iff_bare.mp wellFormed
  refine wellFormed_iff_bare.mpr ⟨(packet.bare_replay log).symm ▸ bare, ?_⟩
  intro index publicKey signature found
  rw [partialSignature?_replay inRange, Option.or_eq_some_iff] at found
  rcases found with written | ⟨_, old⟩
  · exact readable _ (mem_of_last?_eq_some written)
  · exact present index publicKey signature old

/-- Whether no two writes of a log contradict each other. -/
def Agrees (log : List Write) : Prop :=
  ∀ a ∈ log, ∀ b ∈ log, a.index = b.index → a.publicKey = b.publicKey → a = b

/-- Where a log has written there is a signature. -/
theorem exists_last?_eq_some {signature : Bytes} (member : ⟨index, publicKey, signature⟩ ∈ log) :
    ∃ latest, last? log index publicKey = some latest := by
  refine Option.ne_none_iff_exists'.mp fun unwritten => ?_
  have none := List.filterMap_eq_nil_iff.mp (List.getLast?_eq_none_iff.mp unwritten) _ member
  rw [value?_eq_some_iff.mpr rfl] at none
  cases none

/-- A log that does not contradict itself leaves each signature that it writes. -/
theorem last?_eq_some {signature : Bytes} (member : ⟨index, publicKey, signature⟩ ∈ log)
    (agrees : Agrees log) : last? log index publicKey = some signature := by
  obtain ⟨latest, written⟩ := exists_last?_eq_some member
  have same := agrees _ member _ (mem_of_last?_eq_some written) rfl rfl
  rw [written, (Write.mk.inj same).2.2]

/-- Logs of the same writes leave the same, in whatever order and number they list them, if no two
writes contradict each other. -/
theorem last?_eq_of_mem_iff {other : List Write} (same : ∀ entry, entry ∈ log ↔ entry ∈ other)
    (agrees : Agrees log) (index : Nat) (publicKey : Bytes) :
    last? log index publicKey = last? other index publicKey := by
  have agrees' : Agrees other := fun a memberA b memberB =>
    agrees a ((same a).mpr memberA) b ((same b).mpr memberB)
  apply Option.ext
  intro signature
  constructor
  · intro written
    exact last?_eq_some ((same _).mp (mem_of_last?_eq_some written)) agrees'
  · intro written
    exact last?_eq_some ((same _).mpr (mem_of_last?_eq_some written)) agrees

end Replay

section Sign

variable {key : SecretKey}

/-- The signature by a key on the digest of an input. -/
def signatureBy (packet : Packet) (key : SecretKey) (index : Nat) : Bytes :=
  signDigest ((packet.sighash index).toOption.getD []) key

/-- The inputs in front of the first that has no digest. -/
def digested (packet : Packet) : List Nat :=
  (List.range packet.inputs.length).takeWhile fun index => (packet.sighash index).isOk

/-- The writes of signing: to the inputs in front of the first that has no digest. -/
def signLog (packet : Packet) (key : SecretKey) : List Write :=
  packet.digested.map fun index => ⟨index, key.publicKey.bytes, packet.signatureBy key index⟩

/-- What stops signing: the first input that has no digest, if there is one. -/
def signVerdict (packet : Packet) : Except Error Unit :=
  (List.range packet.inputs.length).forM fun index => (packet.sighash index).map fun _ => ()

/-- Whether every input has a digest. -/
def Signable (packet : Packet) : Prop :=
  ∀ index < packet.inputs.length, ∃ digest, packet.sighash index = .ok digest

/-- Nothing stops signing if all inputs have digests. -/
theorem signVerdict_eq_ok_iff : packet.signVerdict = .ok () ↔ packet.Signable := by
  simp only [signVerdict, Except.forM_eq_ok_iff, List.mem_range, Except.map_eq_ok_iff, and_true]
  rfl

/-- If all inputs have digests, signing comes to all of them. -/
theorem Signable.digested_eq (signable : packet.Signable) :
    packet.digested = List.range packet.inputs.length := by
  refine List.takeWhile_eq_self_iff.mpr fun index member => ?_
  obtain ⟨digest, found⟩ := signable index (List.mem_range.mp member)
  rw [found]
  rfl

/-- Signing stops at the first input that has no digest. -/
theorem signVerdict_error {failure : Error} (stopped : packet.signVerdict = .error failure) :
    ∃ stop < packet.inputs.length, packet.sighash stop = .error failure ∧
      (∀ index < stop, ∃ digest, packet.sighash index = .ok digest) ∧
      packet.digested = List.range stop := by
  obtain ⟨before, stop, after, split, passed, failed⟩ := Except.forM_eq_error_iff.mp stopped
  simp only [Except.map_eq_ok_iff, and_true] at passed
  rw [Except.map_eq_error_iff] at failed
  have front : packet.digested = before := by
    rw [digested, split, List.takeWhile_append_of_pos, List.takeWhile_cons_of_neg, List.append_nil]
    · simp [failed, Except.isOk, Except.toBool]
    · intro index member
      obtain ⟨digest, found⟩ := passed index member
      simp [found, Except.isOk, Except.toBool]
  rw [List.range_eq_range', List.range'_eq_append_iff] at split
  obtain ⟨count, below, rfl, rest⟩ := split
  rw [Nat.mul_one, Nat.zero_add] at rest
  have left : packet.inputs.length - count = packet.inputs.length - count - 1 + 1 := by
    have length := congrArg List.length rest
    rw [List.length_cons, List.length_range'] at length
    omega
  rw [left, List.range'_succ] at rest
  obtain ⟨rfl, _⟩ := List.cons.inj rest
  rw [← List.range_eq_range'] at front passed
  exact ⟨stop, by omega, failed, fun index below => passed index (List.mem_range.mpr below), front⟩

theorem signLog_inRange (packet : Packet) (key : SecretKey) :
    ∀ entry ∈ packet.signLog key, entry.index < packet.inputs.length := by
  intro entry member
  obtain ⟨index, reached, rfl⟩ := List.mem_map.mp member
  exact List.mem_range.mp ((List.takeWhile_sublist _).subset reached)

theorem agrees_signLog : Agrees (packet.signLog key) := by
  intro a memberA b memberB sameIndex _
  obtain ⟨index, _, rfl⟩ := List.mem_map.mp memberA
  obtain ⟨index', _, rfl⟩ := List.mem_map.mp memberB
  obtain rfl : index = index' := sameIndex
  rfl

theorem sighash_of_bare {a b : Packet} (same : a.bare = b.bare) (index : Nat) :
    a.sighash index = b.sighash index := by
  rw [← sighash_bare, same, sighash_bare]

theorem signLog_of_bare {a b : Packet} (same : a.bare = b.bare) (key : SecretKey) :
    a.signLog key = b.signLog key := by
  simp only [signLog, digested, signatureBy, sighash_of_bare same, length_inputs_of_bare same]

theorem signVerdict_of_bare {a b : Packet} (same : a.bare = b.bare) :
    a.signVerdict = b.signVerdict := by
  simp only [signVerdict, sighash_of_bare same, length_inputs_of_bare same]

/-- One pass writes to the inputs that it comes to before one without a digest. -/
private theorem signFrom_eq (key : SecretKey) (packet : Packet) (count index : Nat) :
    signFrom key key.publicKey.bytes count index packet =
      (packet.replay
        (((List.range' index count).takeWhile fun index => (packet.sighash index).isOk).map
          fun index => ⟨index, key.publicKey.bytes, packet.signatureBy key index⟩),
        (List.range' index count).forM fun index => (packet.sighash index).map fun _ => ()) := by
  induction count generalizing packet index with
  | zero => rfl
  | succ count ih =>
    have pass (places : List Nat) : (index :: places).forM
        (fun place => (packet.sighash place).map fun _ => ()) =
          (packet.sighash index).map (fun _ => ()) >>= fun _ =>
            places.forM fun place => (packet.sighash place).map fun _ => () := rfl
    rw [List.range'_succ, pass, List.takeWhile_cons]
    cases known : packet.sighash index with
    | error failure =>
      simp only [signFrom, known]
      rfl
    | ok digest =>
      have signature : packet.signatureBy key index = signDigest digest key := by
        rw [signatureBy, known]
        rfl
      have same : (packet.modifyInput index (·.sign key.publicKey.bytes
          (signDigest digest key))).bare = packet.bare := packet.bare_modifyInput_sign _ _ _
      simp only [signFrom, known]
      rw [ih]
      simp only [sighash_of_bare same, signatureBy]
      simp only [signatureBy] at signature
      simp [Except.isOk, Except.toBool, replay, write, signature, Except.map, bind, Except.bind]

/-- Signing replays its log. -/
theorem sign_eq (packet : Packet) (key : SecretKey) :
    packet.sign key = (packet.replay (packet.signLog key), packet.signVerdict) := by
  rw [sign, signFrom_eq, ← List.range_eq_range']
  rfl

end Sign

end Custody.Packet
