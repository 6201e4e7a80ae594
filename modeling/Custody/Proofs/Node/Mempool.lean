import Custody.Proofs.Node.Log

/-! # Waiting transactions

A list of waiting transactions is followed by one request for each of them, whatever comes back. A
transaction that cannot be got is left out, and the others stay in the order of the list.
-/

namespace Custody.Node

open Json (Decoder)
open Query

variable {session : Session} {hashes : List String}

/-- The list of waiting transactions is got, or the call for it fails, and the query with it. -/
theorem runOn_getMempool_eq_error_iff {failure : Error} {left : Session} :
    getMempool.runOn session = (.error failure, left) ↔
      (callAs (Decoder.list Decoder.text) "getrawmempool" []).runOn session =
        (.error failure, left) := by
  rw [getMempool]
  cases outcome : ((callAs (Decoder.list Decoder.text) "getrawmempool" []).runOn session).1 with
  | ok hashes =>
    rw [runOn_bind_of_ok outcome, runOn_getAvailable]
    constructor
    · intro failed
      cases failed
    · intro failed
      rw [failed] at outcome
      cases outcome
  | error stopped =>
    have run : (callAs (Decoder.list Decoder.text) "getrawmempool" []).runOn session =
        (.error stopped, (callAs (Decoder.list Decoder.text) "getrawmempool" []).left session) :=
      Prod.ext outcome rfl
    rw [runOn_bind_of_error outcome, run]
    simp

/-- Behind a list of waiting transactions each of them is asked for. -/
theorem runOn_getMempool
    (listed : next? (Decoder.list Decoder.text) session.replies = some hashes) :
    getMempool.runOn session =
      (.ok (((session.replies.drop 1).take hashes.length).filterMap
          (transaction? session.config.network)),
        session.issueAll (⟨"getrawmempool", []⟩ :: hashes.map .transaction)) := by
  have called : ((callAs (Decoder.list Decoder.text) "getrawmempool" []).runOn session).1.toOption =
      some hashes := listed ▸ toOption_callAs
  cases outcome : ((callAs (Decoder.list Decoder.text) "getrawmempool" []).runOn session).1 with
  | error failure =>
    rw [outcome] at called
    cases called
  | ok found =>
    rw [outcome] at called
    obtain rfl : found = hashes := Option.some.inj called
    rw [getMempool, runOn_bind_of_ok outcome, left_callAs, runOn_getAvailable]
    rfl

/-- Of the waiting transactions none is lost, and none changes its place. Where the first reply is a
list of hashes, the log gets the request for the list and then exactly one request for each hash, in
the order of the list. Whatever comes back, the query returns the transactions that the replies to
these requests hold, one for each reply that holds one: what a request for that transaction alone
gets at its place. The query fails if and only if the call for the list fails. -/
theorem getMempool_exact (session : Session) :
    (∀ hashes, next? (Decoder.list Decoder.text) session.replies = some hashes →
      let issued : List Issued := ⟨"getrawmempool", []⟩ :: hashes.map .transaction
      let found := ((session.replies.drop 1).take hashes.length).filterMap
        (transaction? session.config.network)
      getMempool.runOn session = (.ok found, session.issueAll issued) ∧
        (session.issueAll issued).posted =
          session.posted ++ session.entry 0 ⟨"getrawmempool", []⟩ ::
            hashes.mapIdx (fun place hash => session.entry (place + 1) (.transaction hash)) ∧
        (∀ (place : Nat) (hash : String),
          Json.parse? (session.entry place (.transaction hash)).body =
            some (.object [("id", .nat (session.nextId + UInt64.ofNat place).toNat),
              ("jsonrpc", .string "2.0"), ("method", .string "getrawtransaction"),
              ("params", .array [.string hash, .nat 1])])) ∧
        ∀ place < hashes.length, ∀ hash,
          ((getTransaction hash).runOn
              (session.issueAll (issued.take (place + 1)))).1.toOption =
            session.replies[place + 1]?.bind (transaction? session.config.network)) ∧
      ∀ failure left, getMempool.runOn session = (.error failure, left) ↔
        (callAs (Decoder.list Decoder.text) "getrawmempool" []).runOn session =
          (.error failure, left) := by
  refine ⟨fun hashes listed => ⟨runOn_getMempool listed, ?_, fun place hash => ?_,
    fun place inList hash => ?_⟩, fun _ _ => runOn_getMempool_eq_error_iff⟩
  · have requests : (hashes.map Issued.transaction).mapIdx (fun place => session.entry (place + 1))
        = hashes.mapIdx fun place hash => session.entry (place + 1) (.transaction hash) := by
      ext1 place
      simp [List.getElem?_mapIdx, Function.comp_def]
    rw [Session.posted_issueAll, List.mapIdx_cons, requests]
  · exact (Issued.plain_transaction hash).parse?_render _
  · have count : (hashes.map Issued.transaction).length = hashes.length := List.length_map _
    rw [toOption_getTransaction, Session.config_issueAll, Session.replies_issueAll,
      List.head?_drop, List.length_take, List.length_cons, count, Nat.min_eq_left (by omega)]

theorem getMempool_exact_skipping :
    let listing := "\x7b\"result\":[\"aa\",\"bb\",\"cc\"]\x7d"
    let replies : List (Except Error String) :=
      [.ok listing, .error (.rpc "timeout"), .ok "\x7b\"result\":\x7b\"txid\":\"bb\"\x7d\x7d",
        .ok "\x7b"]
    let session : Session := { config := ⟨"http://127.0.0.1:8332", .bitcoin⟩, replies }
    (getMempool.runOn session).1 = .ok [⟨"bb", [], [], "", ""⟩] ∧
      (getMempool.runOn session).2.posted.length = 4 := by
  intro listing replies session
  have listed : next? (Decoder.list Decoder.text) session.replies = some ["aa", "bb", "cc"] := by
    decide +kernel
  have found : ((session.replies.drop 1).take 3).filterMap (transaction? .bitcoin) =
      [⟨"bb", [], [], "", ""⟩] := by
    decide +kernel
  obtain ⟨run, log, -⟩ := (getMempool_exact session).1 _ listed
  exact ⟨(congrArg Prod.fst run).trans (congrArg Except.ok found), by rw [run, log]; rfl⟩

end Custody.Node
