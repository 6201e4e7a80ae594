import Custody.Proofs.Operation.Proposal
import Custody.Proofs.Text.Uuid
import Mathlib.Data.Set.List

/-! # What the extra data of a proposal states

The custody service reads the extra data of a proposal, and this library only writes it. A reader
of the extra data of an account is given here, and the extra data of a transfer is its type, the
identifier of the request it follows and its tail, as they are. So proposals of one kind that have
the same extra data propose the same.
-/

namespace Custody

namespace Operation

/-- The terms of an account. -/
structure AccountTerms where
  timeLock : UInt16
  threshold : UInt8
  count : UInt8
  owners : List Uuid
deriving DecidableEq

/-- Reads some identifiers, one after the other. -/
def takeIds : Nat → Bytes → Except OperationError (List Uuid × Bytes)
  | 0, bytes => .ok ([], bytes)
  | n + 1, bytes => do
    let (id, rest) ← takeId bytes
    let (ids, rest) ← takeIds n rest
    return (id :: ids, rest)

variable {bytes rest : Bytes}

theorem takeIds_eq_ok_iff {n : Nat} {ids : List Uuid} :
    takeIds n bytes = .ok (ids, rest) ↔
      ids.length = n ∧ bytes = ids.flatMap Uuid.bytes ++ rest := by
  induction n generalizing bytes rest ids with
  | zero =>
    rw [takeIds, Except.ok.injEq, Prod.mk.injEq, List.length_eq_zero_iff]
    constructor
    · rintro ⟨rfl, rfl⟩
      exact ⟨rfl, rfl⟩
    · rintro ⟨rfl, rfl⟩
      exact ⟨rfl, rfl⟩
  | succ n ih =>
    simp only [takeIds, Except.bind_eq_ok_iff, Prod.exists, takeId_eq_ok_iff, ih]
    constructor
    · rintro ⟨id, _, rfl, later, _, ⟨counted, rfl⟩, done⟩
      cases done
      exact ⟨congrArg (· + 1) counted, by rw [List.flatMap_cons, List.append_assoc]⟩
    · rintro ⟨counted, rfl⟩
      obtain ⟨id, later, rfl⟩ := List.exists_cons_of_length_eq_add_one counted
      refine ⟨id, _, ?_, later, rest, ⟨Nat.succ.inj counted, rfl⟩, rfl⟩
      rw [List.flatMap_cons, List.append_assoc]

namespace AccountTerms

/-- The bytes that state the terms of an account. -/
def write (terms : AccountTerms) : Bytes :=
  Bytes.ofNatBE 2 terms.timeLock.toNat ++ terms.threshold :: terms.count ::
    terms.owners.flatMap Uuid.bytes

/-- Reads the terms of an account: two bytes of the lock, most significant first, the threshold, the
number of owners, and as many identifiers. -/
def read (bytes : Bytes) : Except OperationError (AccountTerms × Bytes) := do
  let (timeLock, rest) ← take "time lock" 2 bytes
  let (threshold, rest) ← takeByte "threshold" rest
  let (count, rest) ← takeByte "owner count" rest
  let (owners, rest) ← takeIds count.toNat rest
  return (⟨UInt16.ofNat (Bytes.toNatBE timeLock), threshold, count, owners⟩, rest)

/-- Terms are read from the bytes that state them, if the number of owners is right, whatever
follows. -/
theorem read_eq_ok_iff {terms : AccountTerms} :
    read bytes = .ok (terms, rest) ↔
      terms.owners.length = terms.count.toNat ∧ bytes = terms.write ++ rest := by
  simp only [read, Except.bind_eq_ok_iff, Prod.exists, take_eq_ok_iff, takeByte_eq_ok_iff,
    takeIds_eq_ok_iff]
  constructor
  · rintro ⟨timeLock, _, ⟨width, rfl⟩, threshold, _, rfl, count, _, rfl, owners, _,
      ⟨counted, rfl⟩, done⟩
    cases done
    have small := Bytes.toNatBE_lt timeLock
    rw [width] at small
    have lock : Bytes.ofNatBE 2 (UInt16.ofNat (Bytes.toNatBE timeLock)).toNat = timeLock := by
      rw [UInt16.toNat_ofNat', show 2 ^ 16 = 256 ^ 2 from rfl, Nat.mod_eq_of_lt small, ← width,
        Bytes.ofNatBE_toNatBE]
    refine ⟨counted, ?_⟩
    rw [write, lock, List.append_assoc]
    rfl
  · rintro ⟨counted, rfl⟩
    have lock : UInt16.ofNat (Bytes.toNatBE (Bytes.ofNatBE 2 terms.timeLock.toNat)) =
        terms.timeLock := by
      rw [Bytes.toNatBE_ofNatBE terms.timeLock.toNat_lt, UInt16.ofNat_toNat]
    refine ⟨Bytes.ofNatBE 2 terms.timeLock.toNat, _, ⟨Bytes.length_ofNatBE 2 _, ?_⟩,
      terms.threshold, _, rfl, terms.count, _, rfl, terms.owners, rest, ⟨counted, rfl⟩, ?_⟩
    · rw [write, List.append_assoc]
      rfl
    · rw [lock]
      rfl

end AccountTerms

end Operation

namespace Proposal

open Operation

/-- The ways to propose. -/
inductive Builder where
  | account
  | transaction
  | batch
deriving DecidableEq

/-- The way in which something is proposed. -/
def builder : Proposal → Builder
  | account .. => .account
  | transaction .. => .transaction
  | batch .. => .batch

/-- Whether something can be proposed: an account has at most 255 owners, and all of them spell
identifiers. -/
def Possible : Proposal → Prop
  | account owners _ _ =>
    owners.length ≤ 255 ∧ ∀ owner ∈ owners, ∃ uuid : Uuid, owner.toLower ∈ uuid.forms
  | transaction .. | batch .. => True

/-- The identifier that a head spells, or the one of all zeros. -/
def headId (head : String) : Uuid := (Uuid.parse? head).getD Uuid.nil

/-- Whether some bytes state what is proposed. -/
def States (extra : Bytes) : Proposal → Prop
  | account owners threshold timeLock => ∃ count uuids,
    count.toNat = owners.length ∧ owners.map Uuid.parse? = uuids.map some ∧
      AccountTerms.read extra = .ok (⟨timeLock, threshold, count, uuids⟩, [])
  | transaction type head destination =>
    extra = type :: (headId head).bytes ++ Bytes.ofText destination
  | batch type head hash => extra = type :: (headId head).bytes ++ hash

/-- Whether two proposals are of one kind and propose the same. -/
inductive Agrees : Proposal → Proposal → Prop where
  | account {owners owners' : List String} {threshold : UInt8} {timeLock : UInt16}
    (same : owners.map Uuid.parse? = owners'.map Uuid.parse?) :
    Agrees (account owners threshold timeLock) (account owners' threshold timeLock)
  | transaction {type : UInt8} {head head' destination : String}
    (same : headId head = headId head') :
    Agrees (transaction type head destination) (transaction type head' destination)
  | batch {type : UInt8} {head head' : String} {hash : Bytes}
    (same : headId head = headId head') : Agrees (batch type head hash) (batch type head' hash)

variable {id : Uuid} {publicKey : String} {chain : Chain} {proposal other : Proposal}
  {op : Operation} {extra : Bytes}

private theorem exists_map_some_iff {owners : List String} :
    (∃ uuids : List Uuid, owners.map Uuid.parse? = uuids.map some) ↔
      ∀ owner ∈ owners, ∃ uuid : Uuid, owner.toLower ∈ uuid.forms := by
  have listed := Set.ext_iff.mp (Set.range_list_map (some : Uuid → Option Uuid))
    (owners.map Uuid.parse?)
  simpa only [Set.mem_range, Set.mem_ofPred_eq, List.forall_mem_map, eq_comm,
    ← Uuid.parse?_eq_some_iff] using listed

theorem exists_operation_iff :
    (∃ op, proposal.operation id publicKey chain = .ok op) ↔ proposal.Possible := by
  cases proposal with
  | account owners threshold timeLock =>
    simp only [operation, proposeAccount_eq_ok_iff, ownerBytes_eq_ok_iff, Possible,
      ← exists_map_some_iff]
    constructor
    · rintro ⟨_, few, _, ⟨uuids, spelled, _⟩, _⟩
      exact ⟨few, uuids, spelled⟩
    · rintro ⟨few, uuids, spelled⟩
      exact ⟨_, few, _, ⟨uuids, spelled, rfl⟩, rfl⟩
  | transaction type head destination => exact iff_of_true ⟨_, proposeBatch_eq ..⟩ trivial
  | batch type head hash => exact iff_of_true ⟨_, proposeBatch_eq ..⟩ trivial

theorem states_of_operation (proposed : proposal.operation id publicKey chain = .ok op) :
    proposal.States op.extra := by
  cases proposal with
  | account owners threshold timeLock =>
    obtain ⟨few, ids, read, rfl⟩ := proposeAccount_eq_ok_iff.mp proposed
    obtain ⟨uuids, spelled, rfl⟩ := ownerBytes_eq_ok_iff.mp read
    have counted : (UInt8.ofNat owners.length).toNat = owners.length := by
      rw [UInt8.toNat_ofNat', Nat.mod_eq_of_lt (by omega)]
    refine ⟨UInt8.ofNat owners.length, uuids, counted, spelled, ?_⟩
    have same : owners.length = uuids.length := by simpa using congrArg List.length spelled
    exact AccountTerms.read_eq_ok_iff.mpr ⟨by rw [counted, same], (List.append_nil _).symm⟩
  | transaction type head destination =>
    cases (proposeBatch_eq ..).symm.trans proposed
    rfl
  | batch type head hash =>
    cases (proposeBatch_eq ..).symm.trans proposed
    rfl

private theorem transfer_inj {type type' : UInt8} {head head' : Uuid} {tail tail' : Bytes} :
    type :: head.bytes ++ tail = type' :: head'.bytes ++ tail' ↔
      type = type' ∧ head = head' ∧ tail = tail' := by
  constructor
  · intro same
    obtain ⟨types, rests⟩ := List.cons.inj same
    have read : takeId (head'.bytes ++ tail') = .ok (head, tail) := takeId_eq_ok_iff.mpr rests.symm
    rw [takeId_eq_ok_iff.mpr rfl] at read
    cases read
    exact ⟨types, rfl, rfl⟩
  · rintro ⟨rfl, rfl, rfl⟩
    rfl

/-- Two proposals of one kind have the same extra data exactly when they agree. -/
theorem eq_iff_agrees {extra' : Bytes} (kind : proposal.builder = other.builder)
    (states : proposal.States extra) (states' : other.States extra') :
    extra = extra' ↔ proposal.Agrees other := by
  cases proposal with
  | account owners threshold timeLock =>
    cases other with
    | account owners' threshold' timeLock' =>
      obtain ⟨count, uuids, counted, spelled, read⟩ := states
      obtain ⟨count', uuids', counted', spelled', read'⟩ := states'
      constructor
      · rintro rfl
        rw [read] at read'
        cases read'
        exact .account (spelled.trans spelled'.symm)
      · rintro ⟨same⟩
        obtain rfl : uuids = uuids' :=
          (List.map_inj_right fun _ _ => Option.some.inj).mp
            (spelled.symm.trans (same.trans spelled'))
        have sizes : owners.length = owners'.length := by
          simpa using congrArg List.length same
        obtain rfl : count = count' := UInt8.toNat_inj.mp (by rw [counted, counted', sizes])
        rw [(AccountTerms.read_eq_ok_iff.mp read).2, (AccountTerms.read_eq_ok_iff.mp read').2]
    | transaction | batch => cases kind
  | transaction type head destination =>
    cases other with
    | transaction type' head' destination' =>
      rw [states, states', transfer_inj, Bytes.ofText_inj]
      constructor
      · rintro ⟨rfl, same, rfl⟩
        exact .transaction same
      · intro agrees
        cases agrees with
        | transaction same => exact ⟨rfl, same, rfl⟩
    | account | batch => cases kind
  | batch type head hash =>
    cases other with
    | batch type' head' hash' =>
      rw [states, states', transfer_inj]
      constructor
      · rintro ⟨rfl, same, rfl⟩
        exact .batch same
      · intro agrees
        cases agrees with
        | batch same => exact ⟨rfl, same, rfl⟩
    | account | transaction => cases kind

/-- An account can be proposed for at most 255 owners that all spell identifiers, and a transfer
always. The extra data of a proposal has a known size and states what is proposed, and another
proposal of the same kind has the same extra data exactly if it proposes the same. -/
theorem extra_exact (proposal : Proposal) (id : Uuid) (publicKey : String) (chain : Chain) :
    ((∃ op, proposal.operation id publicKey chain = .ok op) ↔ proposal.Possible) ∧
    ∀ op, proposal.operation id publicKey chain = .ok op →
      op.extra.length = proposal.size ∧ proposal.States op.extra ∧
      ∀ (other : Proposal) (id' : Uuid) (publicKey' : String) (chain' : Chain) (op' : Operation),
        other.operation id' publicKey' chain' = .ok op' → proposal.builder = other.builder →
          (op.extra = op'.extra ↔ proposal.Agrees other) := by
  refine ⟨exists_operation_iff, fun op proposed => ?_⟩
  refine ⟨(fields_of_operation proposed).2, states_of_operation proposed, ?_⟩
  intro other id' publicKey' chain' op' proposed' kind
  exact eq_iff_agrees kind (states_of_operation proposed) (states_of_operation proposed')

/-- Two spellings of the identifier of a sharer. -/
def sharers : List String :=
  ["C9A9A71946794057BCF098945ED95A81", "\x7bC9a9a719-4679-4057-bcf0-98945ed95a81\x7d"]

theorem extra_exact_sharers :
    ∃ op op', (shared 2).operation Uuid.nil "02AB" .bitcoin = .ok op ∧
      (account sharers 1 144).operation sharer "03cd" .litecoin = .ok op' ∧
      op'.extra.length = 36 ∧ op'.extra = op.extra ∧
      AccountTerms.read op'.extra = .ok (⟨144, 1, 2, [sharer, sharer]⟩, []) := by
  have named : ∀ owner ∈ sharers, Uuid.parse? owner = some sharer := by decide
  have both : sharers.map Uuid.parse? = [sharer, sharer].map some := by decide
  have same : sharers.map Uuid.parse? =
      (List.replicate 2 "c9a9a719-4679-4057-bcf0-98945ed95a81").map Uuid.parse? := by
    decide
  obtain ⟨op, proposed⟩ := operation_shared (show 2 ≤ 255 by decide)
  obtain ⟨possible, exact⟩ := extra_exact (account sharers 1 144) sharer "03cd" .litecoin
  obtain ⟨op', proposed'⟩ := possible.mpr
    ⟨by decide, fun owner member => ⟨sharer, Uuid.parse?_eq_some_iff.mp (named owner member)⟩⟩
  obtain ⟨size, ⟨count, uuids, counted, spelled, read⟩, agrees⟩ := exact op' proposed'
  obtain rfl : count = 2 := UInt8.toNat_inj.mp counted
  obtain rfl : uuids = [sharer, sharer] :=
    (List.map_inj_right fun _ _ => Option.some.inj).mp (spelled.symm.trans both)
  exact ⟨op, op', proposed, proposed', size,
    (agrees (shared 2) _ _ _ op proposed rfl).mpr (.account same), read⟩

end Proposal

end Custody
