import Custody.Operation
import Custody.Proofs.Bytes
import Custody.Proofs.Except
import Custody.Proofs.Text.Hex

/-! # The form of operations

An operation whose key is spelled by lowercase digits and whose fields are short has a form, and is
read from it whatever follows. A form that ends early is refused with the read that it ends in, so
no form is the beginning of another one.
-/

namespace Custody.Operation

/-- Whether an operation has a form. -/
structure Encodable (op : Operation) : Prop where
  /-- The key has two digits for each byte. -/
  even : op.publicKey.length % 2 = 0
  short : op.publicKey.length ≤ 400
  digits : ∀ c ∈ op.publicKey.toList, c ∈ Hex.lowerDigits
  extra : op.extra.length ≤ 200

/-- A part of a form that is read at once: some bytes of a field, from a position on. -/
structure Span where
  field : String
  start : Nat
  size : Nat

namespace Span

/-- Whether a position is one of a span. -/
def Holds (span : Span) (position : Nat) : Prop :=
  span.start ≤ position ∧ position < span.start + span.size

/-- The failure to read a span when the bytes end at a position. -/
def cut (span : Span) (position : Nat) : OperationError :=
  .truncated span.field span.size (position - span.start)

end Span

/-- The parts of the form of an operation, in order. The lengths of key and extra data are read
before their bytes, as part of the same field. -/
def spans (op : Operation) : List Span :=
  let key := op.publicKey.length / 2
  [⟨"id", 0, 16⟩, ⟨"type", 16, 1⟩, ⟨"curve", 17, 1⟩, ⟨"public key", 18, 1⟩,
    ⟨"public key", 19, key⟩, ⟨"extra", 19 + key, 1⟩, ⟨"extra", 20 + key, op.extra.length⟩]

/-- A field after its length, as it is written if it is short enough. -/
def field (bytes : Bytes) : Bytes :=
  UInt8.ofNat bytes.length :: bytes

/-- The form of an operation whose key is some bytes. -/
def form (op : Operation) (key : Bytes) : Bytes :=
  op.id.bytes ++ op.kind :: op.curve :: field key ++ field op.extra

variable {op : Operation} {bytes key taken rest : Bytes} {name : String}

section Write

private theorem hasUpper_eq_false_iff {text : String} :
    hasUpper text = false ↔ ∀ c ∈ text.toList, c.isUpper = false := by
  simp only [hasUpper, List.any_eq_false, Bool.not_eq_true]

/-- The text of a key is that of some bytes, written in lowercase digits. -/
theorem publicBytes_eq_ok_iff {text : String} :
    publicBytes text = .ok key ↔ Hex.encode key = text := by
  unfold publicBytes
  constructor
  · intro read
    split at read
    · cases read
    · rename_i lower
      split at read
      · rename_i bytes decoded
        cases read
        have lower := hasUpper_eq_false_iff.mp (Bool.eq_false_iff.mpr lower)
        obtain ⟨length, digits⟩ := Hex.exists_decode_iff.mp ⟨key, decoded, rfl⟩
        obtain ⟨spelled, rfl, _⟩ := Hex.exists_encode_iff.mpr ⟨length, fun c member =>
          (Hex.mem_lowerDigits_iff c).mpr ⟨digits c member, lower c member⟩⟩
        rw [Hex.decode_encode] at decoded
        rw [Except.ok.inj decoded]
      · cases read
  · rintro rfl
    have lower : hasUpper (Hex.encode key) = false := by
      obtain ⟨_, digits⟩ := Hex.exists_encode_iff.mp ⟨key, rfl, rfl⟩
      exact hasUpper_eq_false_iff.mpr fun c member =>
        ((Hex.mem_lowerDigits_iff c).mp (digits c member)).2
    simp only [lower, Hex.decode_encode, Bool.false_eq_true, ↓reduceIte]

theorem encodeField_eq_ok_iff {written : Bytes} :
    encodeField name bytes = .ok written ↔ bytes.length ≤ maxField ∧ field bytes = written := by
  unfold encodeField
  split
  · rename_i long
    exact ⟨fun done => (nomatch done), fun short => absurd short.1 (Nat.not_le.mpr long)⟩
  · rename_i short
    rw [Except.ok.injEq]
    exact ⟨fun same => ⟨Nat.not_lt.mp short, same⟩, fun same => same.2⟩

/-- An operation is written as its form, if its key is spelled by lowercase digits and its fields
are short. -/
theorem encode_eq_ok_iff :
    op.encode = .ok bytes ↔
      ∃ key, Hex.encode key = op.publicKey ∧ key.length ≤ maxField ∧
        op.extra.length ≤ maxField ∧ op.form key = bytes := by
  simp only [encode, Except.bind_eq_ok_iff, publicBytes_eq_ok_iff, encodeField_eq_ok_iff]
  constructor
  · rintro ⟨key, spelled, _, ⟨short, rfl⟩, _, ⟨shortExtra, rfl⟩, written⟩
    exact ⟨key, spelled, short, shortExtra, Except.ok.inj written⟩
  · rintro ⟨key, spelled, short, shortExtra, rfl⟩
    exact ⟨key, spelled, _, ⟨short, rfl⟩, _, ⟨shortExtra, rfl⟩, rfl⟩

theorem exists_encode_iff : (∃ bytes, op.encode = .ok bytes) ↔ op.Encodable := by
  simp only [encode_eq_ok_iff]
  constructor
  · rintro ⟨_, key, spelled, short, extra, _⟩
    obtain ⟨length, digits⟩ := Hex.exists_encode_iff.mp ⟨key, spelled, rfl⟩
    rw [maxField] at short extra
    exact ⟨by omega, by omega, digits, extra⟩
  · rintro ⟨even, short, digits, extra⟩
    obtain ⟨key, spelled, length⟩ := Hex.exists_encode_iff.mpr
      ⟨show op.publicKey.length = 2 * (op.publicKey.length / 2) by omega, digits⟩
    exact ⟨_, key, spelled, by rw [maxField]; omega, extra, rfl⟩

end Write

section Read

/-! Readers get the bytes of a form up to a position `n`, behind which nothing is left. -/

private theorem length_cut {n : Nat} (short : n < taken.length) :
    ((taken ++ rest).take n).length = n := by
  rw [List.length_take, List.length_append]
  omega

private theorem split?_cut (n : Nat) :
    Bytes.split? taken.length ((taken ++ rest).take n) =
      if n < taken.length then none else some (taken, rest.take (n - taken.length)) := by
  split
  · rename_i short
    rw [Bytes.split?, List.take_take, Nat.min_eq_right (Nat.le_of_lt short), length_cut short,
      if_neg (Nat.ne_of_lt short)]
  · rename_i enough
    rw [List.take_append, List.take_of_length_le (Nat.not_lt.mp enough),
      Bytes.split?_append rfl]

private theorem take_cut (n : Nat) :
    take name taken.length ((taken ++ rest).take n) =
      if n < taken.length then .error (.truncated name taken.length n)
      else .ok (taken, rest.take (n - taken.length)) := by
  rw [take, split?_cut]
  by_cases short : n < taken.length
  · simp only [short, ↓reduceIte, length_cut short]
  · simp only [short, ↓reduceIte]

private theorem takeByte_cut (b : UInt8) (n : Nat) :
    takeByte name ((b :: rest).take n) =
      if n < 1 then .error (.truncated name 1 n) else .ok (b, rest.take (n - 1)) := by
  cases n with
  | zero => rfl
  | succ n => rfl

private theorem takeId_cut (id : Uuid) (n : Nat) :
    takeId ((id.bytes ++ rest).take n) =
      if n < 16 then .error (.truncated "id" 16 n) else .ok (id, rest.take (n - 16)) := by
  have split : Bytes.split? 16 ((id.bytes ++ rest).take n) =
      if n < 16 then none else some (id.bytes, rest.take (n - 16)) := by
    have cut := @split?_cut id.bytes rest n
    rwa [id.size] at cut
  unfold takeId
  by_cases short : n < 16
  · rw [if_pos short] at split
    split
    · rename_i found
      rw [split] at found
      cases found
    · rw [if_pos short, length_cut (id.size ▸ short)]
  · rw [if_neg short] at split
    split
    · rename_i found
      rw [split] at found
      cases found
      rw [if_neg short]
    · rename_i found
      rw [split] at found
      cases found

private theorem takeField_cut (small : taken.length < 256) (n : Nat) :
    takeField name ((field taken ++ rest).take n) =
      if n < 1 then .error (.truncated name 1 n)
      else if n - 1 < taken.length then .error (.truncated name taken.length (n - 1))
      else .ok (taken, rest.take (n - 1 - taken.length)) := by
  have size : (UInt8.ofNat taken.length).toNat = taken.length := by
    rw [UInt8.toNat_ofNat', Nat.mod_eq_of_lt small]
  rw [takeField, field, List.cons_append, takeByte_cut]
  by_cases none : n < 1
  · simp only [none, ↓reduceIte]
    rfl
  · simp only [none, ↓reduceIte]
    change take name (UInt8.ofNat taken.length).toNat ((taken ++ rest).take (n - 1)) = _
    rw [size, take_cut]

section Guard

variable {α β : Type} {fails : Prop} [Decidable fails] {failure : OperationError}
  {computed : Except OperationError α} {value : α}

private theorem ok_bind {next : α → Except OperationError β} :
    (.ok value >>= next) = next value := rfl

private theorem guard_bind {next : α → Except OperationError β} :
    ((if fails then .error failure else computed) >>= next) =
      if fails then .error failure else computed >>= next := by
  split <;> rfl

private theorem guard_map {change : α → β} :
    (if fails then .error failure else computed).map change =
      if fails then .error failure else computed.map change := by
  split <;> rfl

end Guard

private theorem length_form : (op.form key).length = 20 + key.length + op.extra.length := by
  simp only [form, field, List.length_append, List.length_cons, op.id.size]
  omega

variable (spelled : Hex.encode key = op.publicKey) (short : key.length ≤ maxField)
  (shortExtra : op.extra.length ≤ maxField)

include spelled

theorem length_key : op.publicKey.length / 2 = key.length := by
  rw [← spelled, Hex.length_encode, Nat.mul_div_cancel_left _ (by decide)]

private theorem exists_span {n : Nat} (early : n < (op.form key).length) :
    ∃ span ∈ op.spans, span.Holds n := by
  rw [length_form] at early
  simp only [spans, length_key spelled, Span.Holds, List.mem_cons, List.not_mem_nil, or_false,
    exists_eq_or_imp, exists_eq_left]
  omega

include short shortExtra

/-- The reads of a form of which `n` bytes are left, one after the other. -/
private theorem decode_cut (tail : Bytes) (n : Nat) :
    decode ((op.form key ++ tail).take n) =
      if n < 16 then .error (.truncated "id" 16 n)
      else if n - 16 < 1 then .error (.truncated "type" 1 (n - 16))
      else if n - 17 < 1 then .error (.truncated "curve" 1 (n - 17))
      else if n - 18 < 1 then .error (.truncated "public key" 1 (n - 18))
      else if n - 19 < key.length then .error (.truncated "public key" key.length (n - 19))
      else if n - (19 + key.length) < 1 then
        .error (.truncated "extra" 1 (n - (19 + key.length)))
      else if n - (20 + key.length) < op.extra.length then
        .error (.truncated "extra" op.extra.length (n - (20 + key.length)))
      else .ok op := by
  have split : op.form key ++ tail =
      op.id.bytes ++ (op.kind :: op.curve :: (field key ++ (field op.extra ++ tail))) := by
    simp only [form, List.append_assoc, List.cons_append]
  rw [maxField] at short shortExtra
  have shortKey : key.length < 256 := by omega
  have shortField : op.extra.length < 256 := by omega
  have behind : 19 + key.length + 1 = 20 + key.length := by omega
  -- Each read is behind those before it, so its positions are counted from the front of the form.
  rw [split, decode, read, takeId_cut]
  simp only [guard_bind, ok_bind, takeByte_cut, takeField_cut shortKey, takeField_cut shortField,
    Nat.sub_sub, Nat.reduceAdd, behind, guard_map, spelled]
  rfl

/-- A form is read as its operation, whatever follows. -/
theorem decode_form (tail : Bytes) : decode (op.form key ++ tail) = .ok op := by
  have whole := decode_cut spelled short shortExtra tail (op.form key ++ tail).length
  rw [List.take_length, List.length_append, length_form] at whole
  rw [whole]
  repeat rw [if_neg (by omega)]

/-- A form that ends in a span is refused with that span. -/
private theorem decode_take_form {span : Span} {n : Nat} (member : span ∈ op.spans)
    (holds : span.Holds n) : decode ((op.form key).take n) = .error (span.cut n) := by
  have cut := decode_cut spelled short shortExtra [] n
  rw [List.append_nil] at cut
  rw [cut]
  simp only [spans, length_key spelled, List.mem_cons, List.not_mem_nil, or_false] at member
  obtain ⟨start, stop⟩ := holds
  obtain rfl | rfl | rfl | rfl | rfl | rfl | rfl := member
  all_goals
    dsimp only at start stop
    repeat rw [if_neg (by omega)]
    rw [if_pos (by omega)]
    rfl

end Read

/-- An operation has a form exactly when its key is spelled by an even number of at most 400
lowercase digits and its extra data has at most 200 bytes. It is then read from its form whatever
follows, a form that ends early is refused with the span that it ends in, and no form is the
beginning of the form of another operation. -/
theorem form_exact (op : Operation) :
    ((∃ bytes, op.encode = .ok bytes) ↔ op.Encodable) ∧
    ∀ bytes, op.encode = .ok bytes →
      (∀ tail, decode (bytes ++ tail) = .ok op) ∧
      (∀ n < bytes.length, ∃ span ∈ op.spans, span.Holds n ∧
        decode (bytes.take n) = .error (span.cut n)) ∧
      ∀ other written, other.encode = .ok written → bytes <+: written → op = other := by
  refine ⟨exists_encode_iff, fun bytes encoded => ?_⟩
  obtain ⟨key, spelled, short, shortExtra, rfl⟩ := encode_eq_ok_iff.mp encoded
  have read := decode_form spelled short shortExtra
  refine ⟨read, fun n early => ?_, fun other written encodedOther begins => ?_⟩
  · obtain ⟨span, member, holds⟩ := exists_span spelled early
    exact ⟨span, member, holds, decode_take_form spelled short shortExtra member holds⟩
  · obtain ⟨key', spelled', short', shortExtra', rfl⟩ := encode_eq_ok_iff.mp encodedOther
    obtain ⟨tail, whole⟩ := begins
    have readOther := decode_form spelled' short' shortExtra' []
    rw [List.append_nil, ← whole, read tail] at readOther
    exact Except.ok.inj readOther

/-- An operation that asks for the approval of a transaction. -/
def approval : Operation where
  id := ⟨[0xe3, 0x62, 0x14, 0x07, 0x72, 0x80, 0x49, 0x13, 0xb6, 0x71, 0xb2, 0xc9, 0xc4, 0xd2, 0xdd,
    0xb2], rfl⟩
  kind := 113
  curve := 1
  publicKey := "0225ae1a"
  extra := [1, 2, 3]

theorem form_exact_approval :
    approval.Encodable ∧
      (∀ tail, decode (approval.form [0x02, 0x25, 0xae, 0x1a] ++ tail) = .ok approval) ∧
      ∃ span ∈ approval.spans, span.Holds 21 ∧
        decode ((approval.form [0x02, 0x25, 0xae, 0x1a]).take 21) = .error (span.cut 21) := by
  have spelled : Hex.encode [0x02, 0x25, 0xae, 0x1a] = approval.publicKey := by decide
  have encoded : approval.encode = .ok (approval.form [0x02, 0x25, 0xae, 0x1a]) :=
    encode_eq_ok_iff.mpr ⟨_, spelled, by decide, by decide, rfl⟩
  obtain ⟨encodable, exact⟩ := form_exact approval
  obtain ⟨read, cut, _⟩ := exact _ encoded
  exact ⟨encodable.mp ⟨_, encoded⟩, read, cut 21 (by decide)⟩

end Custody.Operation
