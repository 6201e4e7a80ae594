import Custody.Node.Session
import Custody.Proofs.Json.RoundTrip
import Custody.Proofs.Stateful

/-! # What a call learns from a reply

Each call takes the next reply of the transport, whatever it is. A call that reads its result
succeeds exactly when that reply is the body of an envelope without an error whose result fits.
-/

namespace Custody.Node

open Json (Decoder)

/-- Whether a reply holds a value. -/
def Holds {α : Type} (decode : Decoder α) (reply : Except Error String) (value : α) : Prop :=
  ∃ body envelope, reply = .ok body ∧ Envelope.ofText? body = some envelope ∧
    envelope.error.isNull = true ∧ decode envelope.result.toTree = some value

section Envelope

open Json

/-- A value that is sent in an envelope is what the reply holds, with its fields in order. -/
theorem holds_of_reads {α : Type} {decode : Decoder α} {result ordered : Json} {value : α}
    (reads : Reads result) (order : result.toTree.toJson? (maxDepth - 1) = some ordered)
    (fits : decode ordered.toTree = some value) :
    Holds decode (.ok (Json.object [("result", result)]).render) value := by
  have enveloped : Reads (.object [("result", result)]) :=
    reads_object (List.forall_mem_singleton.mpr reads)
  have read : Envelope.ofText? (Json.object [("result", result)]).render =
      some ⟨ordered, .null⟩ := by
    have taken : (Decoder.value (maxDepth - 1)) result.toTree = some ordered := order
    rw [Envelope.ofText?, enveloped.ofText?_render]
    simp [toTree, fieldsToTrees, Given.ofTree?, Given.add?, Given.optional, List.lookup_nil,
      List.lookup_cons, taken]
  exact ⟨_, _, rfl, read, rfl, fits⟩

end Envelope

namespace Query

variable {α β : Type} {session left : Session}

theorem runOn_lift (outcome : Except Error α) (session : Session) :
    (liftM outcome : Query α).runOn session = (outcome, session) :=
  Stateful.runOn_lift outcome session

theorem runOn_bind_eq_ok_iff {first : Query α} {next : α → Query β} {result : β} :
    (first >>= next).runOn session = (.ok result, left) ↔
      ∃ middle between, first.runOn session = (.ok middle, between) ∧
        (next middle).runOn between = (.ok result, left) :=
  Stateful.runOn_bind_eq_ok_iff

/-- A query has a result in whatever session it leaves. -/
theorem fst_runOn_eq_iff {query : Query α} {result : Except Error α} :
    (query.runOn session).1 = result ↔ ∃ left, query.runOn session = (result, left) :=
  ⟨fun found => ⟨_, Prod.ext found rfl⟩, fun ⟨_, run⟩ => congrArg Prod.fst run⟩

theorem runOn_get_bind (next : Session → Query β) (session : Session) :
    (get >>= next).runOn session = (next session).runOn session := rfl

theorem runOn_modifyGet_bind (step : Session → α × Session) (next : α → Query β)
    (session : Session) :
    (modifyGet step >>= next).runOn session = (next (step session).1).runOn (step session).2 := rfl

theorem runOn_get_eq_ok_iff {found : Session} :
    (get : Query Session).runOn session = (.ok found, left) ↔ session = found ∧ session = left :=
  Stateful.runOn_get_eq_ok_iff

theorem runOn_throw_ne_ok {failure : Error} {result : α} :
    (throw failure : Query α).runOn session ≠ (.ok result, left) :=
  Stateful.runOn_throw_ne_ok

theorem runOn_pure_eq_ok_iff {value result : α} :
    (pure value : Query α).runOn session = (.ok result, left) ↔ value = result ∧ session = left :=
  Stateful.runOn_pure_eq_ok_iff

end Query

open Query

variable {α : Type} {session left : Session} {method : String}

theorem call_eq_ok_iff {params result : Json} :
    (call method params).runOn session = (.ok result, left) ↔
      (∃ body envelope, session.replies.head? = some (.ok body) ∧
        Envelope.ofText? body = some envelope ∧ envelope.error.isNull = true ∧
        envelope.result = result) ∧ (session.post method params).2 = left := by
  have answer : (session.post method params).1 =
      session.replies.head?.getD (.error (.rpc "no response")) := rfl
  unfold call
  rw [runOn_get_bind, runOn_modifyGet_bind, answer]
  cases taken : session.replies.head? with
  | none => simp [runOn_throw_ne_ok]
  | some reply =>
    cases reply with
    | error failure => simp [runOn_throw_ne_ok]
    | ok body =>
      simp only [Option.getD_some]
      cases read : Envelope.ofText? body with
      | none => simp [runOn_throw_ne_ok, read]
      | some envelope =>
        by_cases free : envelope.error.isNull = true
        · simp [free, read, runOn_pure_eq_ok_iff]
        · simp [free, read, runOn_throw_ne_ok]

theorem callAs_eq_ok_iff {decode : Decoder α} {params : List Json} {value : α} :
    (callAs decode method params).runOn session = (.ok value, left) ↔
      (∃ reply, session.replies.head? = some reply ∧ Holds decode reply value) ∧
        (session.post method (.array params)).2 = left := by
  unfold callAs
  simp only [runOn_bind_eq_ok_iff, call_eq_ok_iff]
  constructor
  · rintro ⟨result, _, ⟨⟨body, envelope, reply, read, free, rfl⟩, rfl⟩, run⟩
    split at run
    · rename_i fits
      obtain ⟨rfl, rfl⟩ := runOn_pure_eq_ok_iff.mp run
      exact ⟨⟨_, reply, body, envelope, rfl, read, free, fits⟩, rfl⟩
    · exact absurd run runOn_throw_ne_ok
  · rintro ⟨⟨_, reply, body, envelope, rfl, read, free, fits⟩, rfl⟩
    refine ⟨_, _, ⟨⟨body, envelope, reply, read, free, rfl⟩, rfl⟩, ?_⟩
    rw [fits]
    exact runOn_pure_eq_ok_iff.mpr ⟨rfl, rfl⟩

end Custody.Node
