import Custody.Operation
import Custody.Proofs.Checked

/-! # Operations are read without accesses out of range

The bytes of an operation are read through a cursor, which never stands behind their end. So it has
bytes in front of it, perhaps none, and a step that asks for no more of them is in range.
-/

namespace Custody.Operation

/-- Bytes and a position in them. -/
structure Cursor where
  data : Bytes
  pos : Nat

namespace Cursor

/-- A step of a cursor. -/
abbrev Step (α : Type) := StateT Cursor (Checked OperationError) α

/-- A reader of the bytes in front of a cursor. -/
abbrev Reader (α : Type) := StateT Bytes (Except OperationError) α

/-- Takes `n` bytes of a field. -/
def take (field : String) (n : Nat) : Step Bytes := fun cursor => do
  let remaining ← Checked.difference cursor.data.length cursor.pos
  if remaining < n then throw (.truncated field n remaining)
  else
    let taken ← Checked.slice cursor.data cursor.pos (cursor.pos + n)
    return (taken, { cursor with pos := cursor.pos + n })

/-- A cursor behind the end would have a negative number of bytes in front of it. -/
theorem take_behind {cursor : Cursor} (behind : cursor.data.length < cursor.pos) (field : String)
    (n : Nat) : (take field n cursor).outcome? = none := by
  rw [take, Checked.difference, if_neg (Nat.not_le.mpr behind)]
  rfl

/-- Takes one byte of a field. -/
def takeByte (field : String) : Step UInt8 := do
  let taken ← take field 1
  StateT.lift (Checked.item taken 0)

/-- Takes an identifier. -/
def takeId : Step Uuid := do
  let taken ← take "id" 16
  let copied ← StateT.lift (Checked.copy 16 taken)
  return ⟨copied.1, copied.2⟩

/-- Takes a field after its length. -/
def takeField (field : String) : Step Bytes := do
  let size ← takeByte field
  take field size.toNat

/-- Takes an operation. -/
def takeOperation : Step Operation := do
  let id ← takeId
  let kind ← takeByte "type"
  let curve ← takeByte "curve"
  let key ← takeField "public key"
  let extra ← takeField "extra"
  return ⟨id, kind, curve, Hex.encode key, extra⟩

variable {α β : Type} {step : Step α} {reader : Reader α}

/-- The bytes in front of a cursor. -/
def rest (cursor : Cursor) : Bytes := cursor.data.drop cursor.pos

/-- Whether a step of a cursor that is not behind the end does what a reader does with the bytes in
front of it, and leaves the cursor in front of what is left of them. -/
def Follows (step : Step α) (reader : Reader α) : Prop :=
  ∀ cursor : Cursor, cursor.pos ≤ cursor.data.length →
    (∃ failure, reader cursor.rest = .error failure ∧ step cursor = throw failure) ∨
      ∃ value left, reader cursor.rest = .ok (value, left.rest) ∧ step cursor = pure (value, left) ∧
        left.pos ≤ left.data.length

theorem follows_pure (value : α) : Follows (pure value) (pure value) :=
  fun cursor inRange => .inr ⟨value, cursor, rfl, rfl, inRange⟩

theorem Follows.bind {next : α → Step β} {next' : α → Reader β} (first : Follows step reader)
    (later : ∀ value, Follows (next value) (next' value)) :
    Follows (step >>= next) (reader >>= next') := by
  intro cursor inRange
  change (∃ failure, (reader cursor.rest >>= fun read => next' read.1 read.2) = _ ∧
    (step cursor >>= fun taken => next taken.1 taken.2) = _) ∨
    ∃ value left, (reader cursor.rest >>= fun read => next' read.1 read.2) = _ ∧
      (step cursor >>= fun taken => next taken.1 taken.2) = _ ∧ _
  obtain ⟨failure, fails, failed⟩ | ⟨value, left, reads, done, inRange⟩ := first cursor inRange
  · rw [fails, failed]
    exact .inl ⟨failure, rfl, rfl⟩
  · rw [reads, done]
    exact later value left inRange

theorem follows_take (field : String) (n : Nat) :
    Follows (take field n) (Operation.take field n) := by
  intro cursor inRange
  have remaining : cursor.rest.length = cursor.data.length - cursor.pos := List.length_drop
  rw [take, Checked.difference_of_le inRange, pure_bind]
  by_cases short : cursor.data.length - cursor.pos < n
  · have cut : Bytes.split? n cursor.rest = none := by
      rw [Bytes.split?]
      exact if_neg (by rw [List.length_take]; omega)
    refine .inl ⟨.truncated field n cursor.rest.length, ?_, ?_⟩
    · rw [Operation.take, cut]
    · rw [if_pos short, remaining]
  · have whole : Bytes.split? n cursor.rest =
        some (cursor.rest.take n, cursor.rest.drop n) := by
      rw [Bytes.split?]
      exact if_pos (by rw [List.length_take]; omega)
    refine .inr ⟨cursor.rest.take n, { cursor with pos := cursor.pos + n }, ?_, ?_, by
      dsimp only; omega⟩
    · rw [Operation.take, whole, rest, rest, List.drop_drop]
    · rw [if_neg short, Checked.slice_of_le (by omega) (by omega), pure_bind,
        Nat.add_sub_cancel_left]
      rfl

theorem follows_takeByte (field : String) :
    Follows (takeByte field) (Operation.takeByte field) := by
  intro cursor inRange
  change (∃ failure, _ ∧ (take field 1 cursor >>= _) = _) ∨
    ∃ byte left, _ ∧ (take field 1 cursor >>= _) = _ ∧ _
  obtain ⟨failure, fails, failed⟩ | ⟨taken, left, reads, done, inRange⟩ :=
    follows_take field 1 cursor inRange
  · rw [failed]
    cases bytes : cursor.rest with
    | nil =>
      rw [bytes] at fails
      obtain rfl : .truncated field 1 0 = failure := Except.error.inj fails
      exact .inl ⟨_, rfl, rfl⟩
    | cons byte bytes' =>
      rw [bytes] at fails
      cases fails
  · rw [done]
    cases bytes : cursor.rest with
    | nil =>
      rw [bytes] at reads
      cases reads
    | cons byte bytes' =>
      rw [bytes] at reads
      obtain ⟨rfl, rest⟩ := Prod.mk.inj (Except.ok.inj reads)
      refine .inr ⟨byte, left, ?_, rfl, inRange⟩
      rw [Operation.takeByte, ← rest]
      rfl

theorem follows_takeId : Follows takeId Operation.takeId := by
  intro cursor inRange
  have taken := follows_take "id" 16 cursor inRange
  change (∃ failure, _ ∧ (take "id" 16 cursor >>= _) = _) ∨
    ∃ id left, _ ∧ (take "id" 16 cursor >>= _) = _ ∧ _
  unfold Operation.takeId
  unfold Operation.take at taken
  split
  · rename_i id rest split
    simp only [split] at taken
    obtain ⟨_, fails, _⟩ | ⟨_, left, reads, done, inRange⟩ := taken
    · cases fails
    · obtain ⟨rfl, rfl⟩ := Prod.mk.inj (Except.ok.inj reads)
      have size := (Bytes.split?_eq_some_iff.mp split).1
      rw [done, pure_bind]
      refine .inr ⟨⟨id, size⟩, left, rfl, ?_, inRange⟩
      have copied : (Checked.copy 16 id : Checked OperationError _) = pure ⟨id, size⟩ :=
        Checked.copy_of_length size
      change (StateT.lift (Checked.copy 16 id) >>= _ : Step Uuid) left = _
      rw [copied]
      rfl
  · rename_i split
    simp only [split] at taken
    obtain ⟨failure, fails, failed⟩ | ⟨_, _, reads, _⟩ := taken
    · obtain rfl := Except.error.inj fails
      rw [failed]
      exact .inl ⟨_, rfl, rfl⟩
    · cases reads

theorem follows_takeField (field : String) :
    Follows (takeField field) (Operation.takeField field) :=
  (follows_takeByte field).bind fun size => follows_take field size.toNat

theorem follows_takeOperation : Follows takeOperation read := by
  -- An operation is read field after field.
  have fieldwise : read = (do
      let id ← (Operation.takeId : Reader Uuid)
      let kind ← (Operation.takeByte "type" : Reader UInt8)
      let curve ← (Operation.takeByte "curve" : Reader UInt8)
      let key ← (Operation.takeField "public key" : Reader Bytes)
      let extra ← (Operation.takeField "extra" : Reader Bytes)
      return ⟨id, kind, curve, Hex.encode key, extra⟩ : Reader Operation) := rfl
  rw [fieldwise]
  refine follows_takeId.bind fun id => ?_
  refine (follows_takeByte "type").bind fun kind => ?_
  refine (follows_takeByte "curve").bind fun curve => ?_
  refine (follows_takeField "public key").bind fun key => ?_
  refine (follows_takeField "extra").bind fun extra => ?_
  exact follows_pure _

end Cursor

/-- Reads an operation through a cursor. -/
def decodeChecked (bytes : Bytes) : Checked OperationError Operation :=
  Cursor.takeOperation.run' ⟨bytes, 0⟩

/-- Whatever bytes are given, reading an operation makes no access out of range. -/
theorem decodeChecked_eq (bytes : Bytes) : decodeChecked bytes = .total (decode bytes) := by
  unfold decodeChecked decode StateT.run'
  obtain ⟨failure, fails, failed⟩ | ⟨value, left, reads, done, _⟩ :=
    Cursor.follows_takeOperation ⟨bytes, 0⟩ (Nat.zero_le _)
  · have fails : read bytes = .error failure := fails
    rw [fails, failed]
    rfl
  · have reads : read bytes = .ok (value, left.rest) := reads
    rw [reads, done]
    rfl

end Custody.Operation
