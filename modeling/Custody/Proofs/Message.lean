import Custody.Message
import Custody.Proofs.CompactSize

/-! # Signed messages are told apart

What is hashed for a message determines the network and the message, however long the message is.
An answer to a proposal determines what is answered, the identifier up to the next colon, and all
that follows. So two answers that share a digest are one answer on one network, or they exhibit a
collision of the hash.
-/

namespace Custody

namespace Sha256

/-- Whether two byte strings differ and share a digest. -/
def Collide (a b : Bytes) : Prop :=
  a ≠ b ∧ hash a = hash b

/-- Byte strings that share a double digest are one, or collide, or have digests that collide. -/
theorem eq_or_collide_of_doubleHash_eq {a b : Bytes} (same : doubleHash a = doubleHash b) :
    a = b ∨ Collide a b ∨ Collide (hash a) (hash b) := by
  by_cases equal : a = b
  · exact .inl equal
  · by_cases once : hash a = hash b
    · exact .inr (.inl ⟨equal, once⟩)
    · exact .inr (.inr ⟨once, same⟩)

end Sha256

namespace Message

section Preimage

variable {network network' : Network} {message message' : String}

private theorem header_inj (network network' : Network)
    (same : network.params.messageHeader = network'.params.messageHeader) : network = network' := by
  revert same
  cases network <;> cases network' <;> decide

private theorem length_header_lt (network : Network) :
    (Bytes.ofText network.params.messageHeader).length < 2 ^ 64 := by
  cases network <;> decide

/-- The network and the message are known from what is hashed for them. -/
theorem preimage_inj :
    preimage message network = preimage message' network' ↔
      network = network' ∧ message = message' := by
  constructor
  · intro same
    obtain ⟨header, rest⟩ := CompactSize.sized_append_inj (length_header_lt network') same
    exact ⟨header_inj _ _ (Bytes.ofText_inj.mp header),
      Bytes.ofText_inj.mp (CompactSize.sized_inj.mp rest)⟩
  · rintro ⟨rfl, rfl⟩
    rfl

end Preimage

section Answers

/-- What an owner answers to a proposal. -/
inductive Answer where
  | approves
  | revokes
deriving DecidableEq, Repr

namespace Answer

/-- The text that an owner signs to answer a proposal. -/
def text : Answer → String → String → String
  | approves => approval
  | revokes => revocation

/-- The word that the text begins with. -/
def word : Answer → String
  | approves => "APPROVE"
  | revokes => "REVOKE"

theorem text_eq (answer : Answer) (id tail : String) :
    answer.text id tail = answer.word ++ ":" ++ id ++ ":" ++ tail := by
  cases answer <;> rfl

private theorem separator_not_mem_word (answer : Answer) : ':' ∉ answer.word.toList := by
  cases answer <;> decide

private theorem word_inj {answer answer' : Answer} (same : answer.word = answer'.word) :
    answer = answer' := by
  revert same
  cases answer <;> cases answer' <;> decide

end Answer

/-- What is in front of the first separator, and what is behind it, are known from the whole. -/
private theorem append_separator_inj {α : Type} {separator : α} {front front' rest rest' : List α}
    (solid : separator ∉ front) (solid' : separator ∉ front')
    (same : front ++ separator :: rest = front' ++ separator :: rest') :
    front = front' ∧ rest = rest' := by
  induction front generalizing front' with
  | nil =>
    cases front' with
    | nil => exact ⟨rfl, (List.cons.inj same).2⟩
    | cons first front' =>
      obtain ⟨rfl, _⟩ := List.cons.inj same
      exact absurd List.mem_cons_self solid'
  | cons first front ih =>
    cases front' with
    | nil =>
      obtain ⟨rfl, _⟩ := List.cons.inj same
      exact absurd List.mem_cons_self solid
    | cons first' front' =>
      obtain ⟨rfl, later⟩ := List.cons.inj same
      obtain ⟨rfl, rfl⟩ := ih (mt (List.mem_cons_of_mem _) solid)
        (mt (List.mem_cons_of_mem _) solid') later
      exact ⟨rfl, rfl⟩

/-- An answer, the identifier up to a colon, and what follows it are known from the text. -/
theorem Answer.text_inj {answer answer' : Answer} {id id' tail tail' : String}
    (solid : ':' ∉ id.toList) (solid' : ':' ∉ id'.toList) :
    answer.text id tail = answer'.text id' tail' ↔
      answer = answer' ∧ id = id' ∧ tail = tail' := by
  constructor
  · intro same
    have spelled (answer : Answer) (id tail : String) : (answer.text id tail).toList =
        answer.word.toList ++ ':' :: (id.toList ++ ':' :: tail.toList) := by
      simp [text_eq]
    have letters := congrArg String.toList same
    rw [spelled, spelled] at letters
    obtain ⟨words, fields⟩ :=
      append_separator_inj answer.separator_not_mem_word answer'.separator_not_mem_word letters
    obtain ⟨ids, tails⟩ := append_separator_inj solid solid' fields
    exact ⟨word_inj (String.toList_inj.mp words), String.toList_inj.mp ids,
      String.toList_inj.mp tails⟩
  · rintro ⟨rfl, rfl, rfl⟩
    rfl

-- With a colon in the identifier one text answers two proposals.
example : approval "a:b" "c" = approval "a" "b:c" := rfl

end Answers

/-- Signed messages are separated by network and content. What is hashed for two messages is the
same only for one message on one network, whatever the lengths. Of two answers to proposals whose
identifiers hold no colon, it is the same only if network, answer, identifier and the rest are. If
two such answers differ and still share a digest, they exhibit a collision of the hash. -/
theorem preimage_separates (network network' : Network) :
    (∀ message message', preimage message network = preimage message' network' ↔
      network = network' ∧ message = message') ∧
    ∀ (answer answer' : Answer) (id id' tail tail' : String),
      ':' ∉ id.toList → ':' ∉ id'.toList →
      (preimage (answer.text id tail) network = preimage (answer'.text id' tail') network' ↔
        network = network' ∧ answer = answer' ∧ id = id' ∧ tail = tail') ∧
      (digest (answer.text id tail) network = digest (answer'.text id' tail') network' →
        (network = network' ∧ answer = answer' ∧ id = id' ∧ tail = tail') ∨
        Sha256.Collide (preimage (answer.text id tail) network)
          (preimage (answer'.text id' tail') network') ∨
        Sha256.Collide (Sha256.hash (preimage (answer.text id tail) network))
          (Sha256.hash (preimage (answer'.text id' tail') network'))) := by
  refine ⟨fun _ _ => preimage_inj, ?_⟩
  intro answer answer' id id' tail tail' solid solid'
  have exact : preimage (answer.text id tail) network = preimage (answer'.text id' tail') network' ↔
      network = network' ∧ answer = answer' ∧ id = id' ∧ tail = tail' := by
    rw [preimage_inj, Answer.text_inj solid solid']
  refine ⟨exact, fun same => ?_⟩
  rw [← exact]
  exact Sha256.eq_or_collide_of_doubleHash_eq same

theorem preimage_separates_revocation :
    ':' ∉ "id".toList ∧
      preimage (revocation "id" "hash") .bitcoin ≠ preimage (approval "id" "hash") .bitcoin ∧
      preimage (revocation "id" "hash") .bitcoin ≠ preimage (revocation "id" "hash") .litecoin := by
  have solid : ':' ∉ "id".toList := by decide
  have separates (answer : Answer) (network : Network) :=
    (preimage_separates .bitcoin network).2 .revokes answer "id" "id" "hash" "hash" solid solid
  refine ⟨solid, fun same => ?_, fun same => ?_⟩
  · obtain ⟨_, answers, _⟩ := (separates .approves .bitcoin).1.mp same
    cases answers
  · obtain ⟨networks, _⟩ := (separates .revokes .litecoin).1.mp same
    cases networks

end Message

end Custody
