import Custody.Node.Client
import Custody.Proofs.Json.RoundTrip
import Custody.Proofs.Node.Session

/-! # The log of requests

Which requests a call issues is known from the replies it gets, and each of them is issued once,
whatever comes back. The log of a session holds what its calls issue, in their order, numbered from
1; and what is posted can be read back as what was issued, whatever texts the calls are given.
-/

namespace Custody.Node

open Json (Decoder Plain)

/-- A request as a call issues it. -/
structure Issued where
  method : String
  params : List Json

namespace Issued

/-- Asks for a transaction. -/
def transaction (hash : String) : Issued := ⟨"getrawtransaction", [.string hash, .nat 1]⟩

/-- Asks for a block. -/
def block (hash : String) : Issued := ⟨"getblock", [.string hash, .nat 1]⟩

end Issued

namespace Session

/-- The session with a request posted and the reply to it taken. -/
def issue (session : Session) (issued : Issued) : Session :=
  (session.post issued.method (.array issued.params)).2

/-- The session with requests posted one after the other. -/
def issueAll (session : Session) (issued : List Issued) : Session :=
  issued.foldl issue session

/-- A request as it stands in the log, by its place behind those that are in it. -/
def entry (session : Session) (place : Nat) (issued : Issued) : Posted :=
  ⟨session.config.endpoint,
    (requestBody (session.nextId + UInt64.ofNat place) issued.method (.array issued.params)).render⟩

variable {session : Session}

@[simp] theorem issueAll_nil : session.issueAll [] = session := rfl

@[simp] theorem issueAll_cons (first : Issued) (rest : List Issued) :
    session.issueAll (first :: rest) = (session.issue first).issueAll rest := rfl

theorem issueAll_append (before after : List Issued) :
    session.issueAll (before ++ after) = (session.issueAll before).issueAll after :=
  List.foldl_append

/-- A request takes the next number, and stands behind all others in the log. -/
theorem posted_issue (issued : Issued) :
    (session.issue issued).posted = session.posted ++ [session.entry 0 issued] := by
  have here : session.nextId + UInt64.ofNat 0 = session.nextId := by simp
  rw [entry, here]
  rfl

theorem entry_issue (first : Issued) :
    (session.issue first).entry = fun place => session.entry (place + 1) := by
  funext place issued
  have number : session.nextId + 1 + UInt64.ofNat place =
      session.nextId + UInt64.ofNat (place + 1) := by
    rw [UInt64.ofNat_add, UInt64.add_assoc, UInt64.add_comm 1]
    rfl
  rw [entry, entry, ← number]
  rfl

theorem posted_issueAll (issued : List Issued) :
    (session.issueAll issued).posted = session.posted ++ issued.mapIdx session.entry := by
  induction issued generalizing session with
  | nil => simp
  | cons first rest ih =>
    rw [issueAll_cons, ih, posted_issue, entry_issue, List.mapIdx_cons, List.append_assoc,
      List.singleton_append]

@[simp] theorem config_issueAll (issued : List Issued) :
    (session.issueAll issued).config = session.config := by
  induction issued generalizing session with
  | nil => rfl
  | cons first rest ih => exact ih

@[simp] theorem replies_issueAll (issued : List Issued) :
    (session.issueAll issued).replies = session.replies.drop issued.length := by
  induction issued generalizing session with
  | nil => rfl
  | cons first rest ih =>
    rw [issueAll_cons, ih]
    change (session.replies.drop 1).drop rest.length = _
    rw [List.drop_drop, Nat.add_comm]
    rfl

end Session

section Query

open Query

variable {α β : Type} {session : Session} {decode : Decoder α} {method : String}
  {params : List Json}

/-- The session that a query leaves. -/
def Query.left (query : Query α) (session : Session) : Session := (query.runOn session).2

/-- What a reply holds. -/
def received? (decode : Decoder α) : Except Error String → Option α
  | .error _ => none
  | .ok body => do
    let envelope ← Envelope.ofText? body
    if envelope.error.isNull then decode envelope.result.toTree else none

theorem received?_eq_some_iff {reply : Except Error String} {value : α} :
    received? decode reply = some value ↔ Holds decode reply value := by
  cases reply with
  | error failure => simp [received?, Holds]
  | ok body => simp [received?, Holds, Option.bind_eq_some_iff, Option.ite_none_right_eq_some]

/-- What the next reply holds. -/
def next? (decode : Decoder α) (replies : List (Except Error String)) : Option α :=
  replies.head?.bind (received? decode)

/-- A query goes on behind a step that succeeds. -/
theorem runOn_bind_of_ok {first : Query α} {next : α → Query β} {middle : α}
    (done : (first.runOn session).1 = .ok middle) :
    (first >>= next).runOn session = (next middle).runOn (first.left session) := by
  refine (Stateful.runOn_bind first next session).trans ?_
  rw [show Stateful.runOn first session = (.ok middle, first.left session) from Prod.ext done rfl]
  rfl

/-- A query ends behind a step that fails. -/
theorem runOn_bind_of_error {first : Query α} {next : α → Query β} {failure : Error}
    (failed : (first.runOn session).1 = .error failure) :
    (first >>= next).runOn session = (.error failure, first.left session) := by
  refine (Stateful.runOn_bind first next session).trans ?_
  rw [show Stateful.runOn first session = (.error failure, first.left session) from
    Prod.ext failed rfl]

theorem left_bind (first : Query α) (next : α → Query β) (session : Session) :
    (first >>= next).left session =
      match (first.runOn session).1 with
      | .ok middle => (next middle).left (first.left session)
      | .error _ => first.left session := by
  unfold Query.left
  cases outcome : (first.runOn session).1 with
  | ok middle => rw [runOn_bind_of_ok outcome, Query.left]
  | error failure => rw [runOn_bind_of_error outcome, Query.left]

/-- A query that leaves the session as it is, whether it fails or not. -/
def Still (query : Query α) : Prop := ∀ session, query.left session = session

theorem still_pure (value : α) : Still (pure value : Query α) := fun _ => rfl

theorem still_throw (failure : Error) : Still (throw failure : Query α) := fun _ => rfl

theorem still_get : Still (get : Query Session) := fun _ => rfl

theorem still_lift (outcome : Except Error α) : Still (liftM outcome : Query α) := by
  intro session
  rw [Query.left, runOn_lift]

/-- Steps that leave the session as it is do so behind any query. -/
theorem left_bind_of_still {first : Query α} {next : α → Query β}
    (stills : ∀ middle, Still (next middle)) :
    (first >>= next).left session = first.left session := by
  rw [left_bind]
  cases (first.runOn session).1 with
  | error failure => rfl
  | ok middle => exact stills middle _

theorem Still.bind {first : Query α} {next : α → Query β} (still : Still first)
    (stills : ∀ middle, Still (next middle)) : Still (first >>= next) := by
  intro session
  rw [left_bind_of_still stills, still session]

/-- A call takes a reply, whatever it is. -/
theorem left_call (params : Json) :
    (call method params).left session = (session.post method params).2 := by
  unfold call Query.left
  rw [runOn_get_bind, runOn_modifyGet_bind]
  split
  · rfl
  · split
    · rfl
    · split <;> rfl

/-- A call issues its request once, whether it fails or not. -/
theorem left_callAs :
    (callAs decode method params).left session = session.issue ⟨method, params⟩ := by
  unfold callAs
  refine (left_bind_of_still fun result => ?_).trans (left_call _)
  split
  · exact still_pure _
  · exact still_throw _

/-- A call has the result that the next reply holds. -/
theorem toOption_callAs :
    ((callAs decode method params).runOn session).1.toOption = next? decode session.replies := by
  have result (value : α) : ((callAs decode method params).runOn session).1 = .ok value ↔
      next? decode session.replies = some value := by
    simp only [fst_runOn_eq_iff, callAs_eq_ok_iff, exists_and_left, exists_eq', and_true, next?,
      Option.bind_eq_some_iff, received?_eq_some_iff]
  ext value
  rw [← result]
  cases ((callAs decode method params).runOn session).1 <;> simp [Except.toOption]

/-- What stands behind a call is asked if the reply to the call holds what it reads. -/
theorem left_callAs_bind (next : α → Query β) :
    (callAs decode method params >>= next).left session =
      match next? decode session.replies with
      | some value => (next value).left (session.issue ⟨method, params⟩)
      | none => session.issue ⟨method, params⟩ := by
  have called : ((callAs decode method params).runOn session).1.toOption =
      next? decode session.replies := toOption_callAs
  rw [left_bind, left_callAs, ← called]
  cases ((callAs decode method params).runOn session).1 <;> rfl

end Query

section Transaction

variable {β : Type} {session : Session} {hash : String}

theorem left_getTransaction_bind (next : TxRecord → Query β) :
    (getTransaction hash >>= next).left session =
      match next? TxRecord.decode session.replies with
      | some record =>
        (next (record.useLegacyAddresses session.config.network)).left
          (session.issue (.transaction hash))
      | none => session.issue (.transaction hash) := by
  unfold getTransaction
  rw [bind_assoc, left_callAs_bind]
  cases next? TxRecord.decode session.replies <;> rfl

theorem left_getTransaction :
    (getTransaction hash).left session = session.issue (.transaction hash) := by
  unfold getTransaction
  rw [left_bind_of_still fun tx => still_get.bind fun _ => still_pure _, left_callAs]
  rfl

/-- A query that may fail is run once, and leaves what it leaves in either case. -/
theorem runOn_attempt {α : Type} (query : Query α) (session : Session) :
    (tryCatch (some <$> query) fun _ => pure none : Query (Option α)).runOn session =
      (.ok (query.runOn session).1.toOption, query.left session) := by
  unfold Query.left Query.runOn
  simp only [tryCatch, tryCatchThe, MonadExceptOf.tryCatch, ExceptT.tryCatch, ExceptT.run,
    ExceptT.mk, StateT.run, bind, StateT.bind, Functor.map, ExceptT.map]
  rcases query session with ⟨outcome, left⟩
  cases outcome <;> rfl

/-- The transaction that a reply holds, with the addresses of the network. -/
def transaction? (network : Network) (reply : Except Error String) : Option TxRecord :=
  (received? TxRecord.decode reply).map (·.useLegacyAddresses network)

/-- A request for a transaction gets what the next reply holds. -/
theorem toOption_getTransaction :
    ((getTransaction hash).runOn session).1.toOption =
      session.replies.head?.bind (transaction? session.config.network) := by
  have called : ((callAs TxRecord.decode "getrawtransaction" [.string hash, .nat 1]).runOn
      session).1.toOption = next? TxRecord.decode session.replies := toOption_callAs
  have next : session.replies.head?.bind (transaction? session.config.network) =
      (next? TxRecord.decode session.replies).map
        (·.useLegacyAddresses session.config.network) := by
    unfold transaction? next?
    cases session.replies.head? <;> rfl
  rw [next, ← called, getTransaction]
  cases outcome : ((callAs TxRecord.decode "getrawtransaction" [.string hash, .nat 1]).runOn
    session).1 with
  | ok record => rw [runOn_bind_of_ok outcome, left_callAs]; rfl
  | error failure => rw [runOn_bind_of_error outcome]; rfl

/-- Every transaction is asked for once, also behind one that cannot be got, and those are returned
that the replies hold. -/
theorem runOn_getAvailable (hashes : List String) (session : Session) :
    (getAvailable hashes).runOn session =
      (.ok ((session.replies.take hashes.length).filterMap (transaction? session.config.network)),
        session.issueAll (hashes.map .transaction)) := by
  induction hashes generalizing session with
  | nil => rfl
  | cons hash hashes ih =>
    have attempted := runOn_attempt (getTransaction hash) session
    have here := congrArg Prod.fst attempted
    have left := congrArg Prod.snd attempted
    have replies : (session.issue (.transaction hash)).replies = session.replies.drop 1 := rfl
    have config : (session.issue (.transaction hash)).config = session.config := rfl
    rw [getAvailable, runOn_bind_of_ok here, Query.left, left, left_getTransaction,
      runOn_bind_of_ok (congrArg Prod.fst (ih _)), Query.left, ih, toOption_getTransaction, replies,
      config, List.map_cons, Session.issueAll_cons]
    refine Prod.ext (congrArg Except.ok ?_) rfl
    cases session.replies with
    | nil => simp
    | cons reply later =>
      rw [List.length_cons, List.take_succ_cons, List.filterMap_cons]
      cases held : transaction? session.config.network reply <;> simp [held]

end Transaction

section Call

/-- A call of a client. -/
inductive Call where
  | transaction (hash : String)
  | mempool
  | block (hash : String)
  | fullBlock (hash : String)
  | blockHash (number : UInt64)
  | height
  | feeRate
  | sendRawTransaction (raw : String)
  | sender (tx : TxRecord)
  | deposit (hash : String) (index : UInt32)

namespace Call

/-- The session that a call leaves, whether it fails or not. -/
def after (session : Session) : Call → Session
  | .transaction hash => (getTransaction hash).left session
  | .mempool => getMempool.left session
  | .block hash => (getBlock hash).left session
  | .fullBlock hash => (getFullBlock hash).left session
  | .blockHash number => (getBlockHash number).left session
  | .height => getHeight.left session
  | .feeRate => estimateFeeRate.left session
  | .sendRawTransaction raw => (Node.sendRawTransaction raw).left session
  | .sender tx => (getSender tx).left session
  | .deposit hash index => (getDeposit hash index).left session

/-- The transaction that the sender of another is looked for in. -/
def previous? (tx : TxRecord) : Option String :=
  match tx.vin with
  | [] => none
  | first :: _ => if first.coinbase.isEmpty then some first.txid else none

/-- The block of a deposit that the next reply describes. -/
def blockOf? (network : Network) (replies : List (Except Error String)) (index : UInt32) :
    Option String := do
  let record ← next? TxRecord.decode replies
  let tx := record.useLegacyAddresses network
  let _ ← describedDeposit? tx index
  if tx.blockhash.isEmpty then none else some tx.blockhash

/-- The requests that a call issues, with the replies to come. A list of waiting transactions is
followed by one request for each, and a deposit in a block by one for the block; every other call
issues one at most. -/
def issued (network : Network) (replies : List (Except Error String)) : Call → List Issued
  | .transaction hash => [.transaction hash]
  | .mempool =>
    ⟨"getrawmempool", []⟩ ::
      ((next? (Decoder.list Decoder.text) replies).getD []).map .transaction
  | .block hash => [.block hash]
  | .fullBlock hash => [⟨"getblock", [.string hash, .nat 2]⟩]
  | .blockHash number => [⟨"getblockhash", [.nat number.toNat]⟩]
  | .height => [⟨"getblockchaininfo", []⟩]
  | .feeRate => [⟨"estimatesmartfee", [.nat 1]⟩]
  | .sendRawTransaction raw => [⟨"sendrawtransaction", [.string raw]⟩]
  | .sender tx => (previous? tx).toList.map .transaction
  | .deposit hash index =>
    .transaction hash :: (blockOf? network replies index).toList.map .block

/-- The requests that calls issue one after the other. Each request takes a reply. -/
def issuedBy (network : Network) : List (Except Error String) → List Call → List Issued
  | _, [] => []
  | replies, call :: calls =>
    let here := call.issued network replies
    here ++ issuedBy network (replies.drop here.length) calls

end Call

open Call

variable {session : Session}

private theorem left_getMempool :
    getMempool.left session =
      session.issueAll (Call.mempool.issued session.config.network session.replies) := by
  unfold getMempool
  rw [left_callAs_bind, issued, Session.issueAll_cons]
  cases next? (Decoder.list Decoder.text) session.replies with
  | none => rfl
  | some hashes => exact congrArg Prod.snd (runOn_getAvailable hashes _)

private theorem left_getSender (tx : TxRecord) :
    (getSender tx).left session =
      session.issueAll ((Call.sender tx).issued session.config.network session.replies) := by
  change _ = session.issueAll ((previous? tx).toList.map .transaction)
  unfold getSender previous?
  cases tx.vin with
  | nil => rfl
  | cons first rest =>
    dsimp only
    by_cases spends : first.coinbase.isEmpty = true
    · rw [if_neg (by simp [spends]), if_pos spends]
      refine (left_bind_of_still fun previous => ?_).trans left_getTransaction
      split
      · exact still_pure _
      · exact still_throw _
    · rw [if_pos (by simp [spends]), if_neg spends]
      rfl

theorem left_locate (described : Deposit) (blockhash : String) :
    (locate described blockhash).left session =
      if blockhash.isEmpty then session else session.issue (.block blockhash) := by
  unfold locate
  split
  · rfl
  · rw [left_bind_of_still fun _ => still_pure _, getBlock, left_callAs]
    rfl

private theorem left_getDeposit (hash : String) (index : UInt32) :
    (getDeposit hash index).left session =
      session.issueAll
        ((Call.deposit hash index).issued session.config.network session.replies) := by
  change _ = (session.issue (.transaction hash)).issueAll
    ((blockOf? session.config.network session.replies index).toList.map .block)
  unfold getDeposit blockOf?
  rw [left_getTransaction_bind]
  cases next? TxRecord.decode session.replies with
  | none => rfl
  | some record =>
    simp only [Option.bind_eq_bind, Option.bind_some]
    cases describedDeposit? (record.useLegacyAddresses session.config.network) index with
    | none => rfl
    | some described =>
      dsimp only
      rw [left_bind_of_still, left_locate]
      · simp only [Option.bind_some]
        split <;> rfl
      · exact fun _ => (still_lift _).bind fun _ => still_get.bind fun _ =>
          (still_lift _).bind fun _ => still_pure _

/-- A call issues its requests in their order, and does nothing else to the session. -/
theorem after_eq (session : Session) (call : Call) :
    call.after session =
      session.issueAll (call.issued session.config.network session.replies) := by
  cases call with
  | transaction hash => exact left_getTransaction
  | mempool => exact left_getMempool
  | block hash => exact left_callAs
  | fullBlock hash =>
    exact (left_bind_of_still fun _ => still_get.bind fun _ => still_pure _).trans left_callAs
  | blockHash number => exact left_callAs
  | height => exact left_callAs
  | feeRate =>
    refine (left_bind_of_still fun coins => ?_).trans left_callAs
    split
    · exact (still_throw _).bind fun _ => still_pure _
    · exact still_pure _
  | sendRawTransaction raw => exact left_callAs
  | sender tx => exact left_getSender tx
  | deposit hash index => exact left_getDeposit hash index

/-- The log of calls that follow each other is that of all their requests. -/
theorem foldl_after (session : Session) (calls : List Call) :
    calls.foldl Call.after session =
      session.issueAll (issuedBy session.config.network session.replies calls) := by
  induction calls generalizing session with
  | nil => rfl
  | cons call calls ih =>
    rw [List.foldl_cons, after_eq, ih, issuedBy, Session.issueAll_append, Session.config_issueAll,
      Session.replies_issueAll]

end Call

section Posted

/-- Whether the parameters of a request can be read back as they are. -/
def Issued.Plain (issued : Issued) : Prop :=
  ∀ param ∈ issued.params, ∀ depth, Json.Plain depth param

private theorem plain_nat {n : Nat} (fits : n < 2 ^ 64) (depth : Nat) :
    Json.Plain depth (.nat n) :=
  .int (by omega) (by omega)

private theorem plain_text {method text : String} {rest : List Json}
    (plain : ∀ param ∈ rest, ∀ depth, Json.Plain depth param) :
    Issued.Plain ⟨method, .string text :: rest⟩ :=
  List.forall_mem_cons.mpr ⟨fun _ => .string text, plain⟩

private theorem plain_number {n : Nat} (fits : n < 2 ^ 64) :
    ∀ param ∈ [Json.nat n], ∀ depth, Json.Plain depth param :=
  List.forall_mem_singleton.mpr (plain_nat fits)

theorem Issued.plain_transaction (hash : String) : (transaction hash).Plain :=
  plain_text (plain_number (by decide))

theorem Issued.plain_block (hash : String) : (block hash).Plain :=
  plain_text (plain_number (by decide))

/-- The arguments of calls are texts and numbers of 64 bits. -/
theorem Call.plain_issued (call : Call) (network : Network)
    (replies : List (Except Error String)) :
    ∀ issued ∈ call.issued network replies, issued.Plain := by
  have transactions (hashes : List String) :
      ∀ issued ∈ hashes.map Issued.transaction, issued.Plain :=
    List.forall_mem_map.mpr fun hash _ => Issued.plain_transaction hash
  have single {issued : Issued} (plain : issued.Plain) : ∀ other ∈ [issued], other.Plain :=
    List.forall_mem_singleton.mpr plain
  cases call with
  | transaction hash => exact single (Issued.plain_transaction hash)
  | mempool => exact List.forall_mem_cons.mpr ⟨List.forall_mem_nil _, transactions _⟩
  | block hash => exact single (Issued.plain_block hash)
  | fullBlock hash =>
    exact single (plain_text (plain_number (by decide)))
  | blockHash number => exact single (plain_number number.toNat_lt)
  | height => exact single (List.forall_mem_nil _)
  | feeRate => exact single (plain_number (by decide))
  | sendRawTransaction raw => exact single (plain_text (List.forall_mem_nil _))
  | sender tx => exact transactions _
  | deposit hash index =>
    exact List.forall_mem_cons.mpr ⟨Issued.plain_transaction hash,
      List.forall_mem_map.mpr fun hash _ => Issued.plain_block hash⟩

theorem Call.plain_issuedBy (network : Network) (replies : List (Except Error String))
    (calls : List Call) : ∀ issued ∈ issuedBy network replies calls, issued.Plain := by
  induction calls generalizing replies with
  | nil => exact fun _ member => absurd member List.not_mem_nil
  | cons call calls ih =>
    intro issued member
    rcases List.mem_append.mp member with here | later
    · exact call.plain_issued network replies issued here
    · exact ih _ issued later

/-- What is posted for a request is read back as its number, its method and its parameters. -/
theorem Issued.Plain.parse?_render {issued : Issued} (plain : issued.Plain) (id : UInt64) :
    Json.parse? (requestBody id issued.method (.array issued.params)).render =
      some (requestBody id issued.method (.array issued.params)) := by
  have names : ["id", "jsonrpc", "method", "params"].Pairwise (· < ·) := by decide
  refine Json.Plain.parse?_render (.object (List.pairwise_map (f := Prod.fst).mp names) ?_)
  simp only [List.forall_mem_cons]
  exact ⟨plain_nat id.toNat_lt _, .string _, .string _,
    .array fun param member => plain param member _, List.forall_mem_nil _⟩

/-- Whatever is called with whatever arguments, and whatever the transport answers: the requests in
the log are those that the calls issue, in their order, at the endpoint of the session. Their bodies
are read back as objects with the numbers from 1 on, of 64 bits, the methods and the parameters. A
call for a deposit posts two requests at most. -/
theorem log_exact (config : Config) (replies : List (Except Error String)) (calls : List Call) :
    let issued := Call.issuedBy config.network replies calls
    let left := calls.foldl Call.after { config, replies }
    left.posted.length = issued.length ∧
      (∀ (place : Nat) (inLog : place < issued.length), ∃ body id,
        left.posted[place]? = some ⟨config.endpoint, body⟩ ∧
        Json.parse? body = some (.object [("id", .nat id), ("jsonrpc", .string "2.0"),
          ("method", .string issued[place].method), ("params", .array issued[place].params)]) ∧
        id = (place + 1) % 2 ^ 64 ∧ (place + 1 < 2 ^ 64 → id = place + 1)) ∧
      ∀ (session : Session) (hash : String) (index : UInt32),
        (Call.after session (.deposit hash index)).posted.length ≤ session.posted.length + 2 := by
  intro issued left
  have log : left.posted = issued.mapIdx (Session.entry { config, replies }) := by
    change (calls.foldl Call.after { config, replies }).posted = _
    rw [foldl_after, Session.posted_issueAll]
    rfl
  refine ⟨by rw [log, List.length_mapIdx], fun place inLog => ?_, fun session hash index => ?_⟩
  · have plain := Call.plain_issuedBy config.network replies calls _ (List.getElem_mem inLog)
    have number : (1 + UInt64.ofNat place : UInt64).toNat = (place + 1) % 2 ^ 64 := by
      rw [UInt64.toNat_add, UInt64.toNat_ofNat']
      simp only [UInt64.toNat_one]
      omega
    refine ⟨_, (1 + UInt64.ofNat place : UInt64).toNat, ?_, plain.parse?_render _, number, ?_⟩
    · rw [log, List.getElem?_mapIdx, List.getElem?_eq_getElem inLog]
      rfl
    · intro below
      rw [number, Nat.mod_eq_of_lt below]
  · rw [after_eq, Session.posted_issueAll, List.length_append, List.length_mapIdx]
    have second : (Call.blockOf? session.config.network session.replies index).toList.length ≤ 1 :=
      by cases Call.blockOf? session.config.network session.replies index <;> simp
    rw [Call.issued, List.length_cons, List.length_map]
    omega

/-- A text that looks like the end of a request stays a text. -/
theorem log_exact_quoted :
    ∃ body, ([Call.transaction "\"],\"id\":7\x7d"].foldl Call.after
        { config := ⟨"http://127.0.0.1:8332", .bitcoin⟩ }).posted[0]? =
          some ⟨"http://127.0.0.1:8332", body⟩ ∧
      Json.parse? body = some (.object [("id", .nat 1), ("jsonrpc", .string "2.0"),
        ("method", .string "getrawtransaction"),
        ("params", .array [.string "\"],\"id\":7\x7d", .nat 1])]) := by
  obtain ⟨_, entries, _⟩ := log_exact ⟨"http://127.0.0.1:8332", .bitcoin⟩ []
    [.transaction "\"],\"id\":7\x7d"]
  obtain ⟨body, id, posted, read, _, number⟩ := entries 0 (by decide)
  obtain rfl := number (by decide)
  exact ⟨body, posted, read⟩

end Posted

end Custody.Node
