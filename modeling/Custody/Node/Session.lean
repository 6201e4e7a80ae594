import Custody.Error
import Custody.Json.Record

/-! # Talking to a node

A session posts requests to one endpoint and numbers them from 1, in 64 bits. What the transport
answers is not under its control, so a session carries the answers to come: each request takes the
next one, and when none is left the transport fails. A query is a computation over the session that
may fail; it leaves the session in either case.
-/

namespace Custody.Node

open Json (Decoder Given Tree)

/-- Where and for which network a session talks. -/
structure Config where
  endpoint : String
  network : Network
deriving DecidableEq

/-- A request as it was posted. -/
structure Posted where
  endpoint : String
  body : String
deriving DecidableEq

/-- The state of the talk with a node. -/
structure Session where
  config : Config
  /-- Number of the next request. -/
  nextId : UInt64 := 1
  /-- What the transport will answer: the body of a reply, or a failure. -/
  replies : List (Except Error String) := []
  /-- The requests so far. -/
  posted : List Posted := []

/-- A computation that talks to a node. -/
abbrev Query (α : Type) := ExceptT Error (StateM Session) α

namespace Query

/-- The result of a query and the session it leaves. -/
def runOn {α : Type} (query : Query α) (session : Session) : Except Error α × Session :=
  query.run.run session

end Query

def requestBody (id : UInt64) (method : String) (params : Json) : Json :=
  .object [("id", .nat id.toNat), ("jsonrpc", .string "2.0"), ("method", .string method),
    ("params", params)]

namespace Session

/-- Posts a request and takes the answer to it. -/
def post (method : String) (params : Json) (session : Session) :
    Except Error String × Session :=
  let posted : Posted :=
    ⟨session.config.endpoint, (requestBody session.nextId method params).render⟩
  let answer := session.replies.head?.getD (.error (.rpc "no response"))
  (answer, { session with
    nextId := session.nextId + 1
    replies := session.replies.drop 1
    posted := session.posted ++ [posted] })

end Session

/-- What the body of a reply holds. -/
structure Envelope where
  result : Json
  error : Json

def Envelope.ofText? (text : String) : Option Envelope := do
  let tree ← Tree.ofText? text
  let given ← Given.ofTree? ["result", "error"] tree
  let value := Decoder.value (Json.maxDepth - 1)
  return ⟨← given.optional "result" value .null, ← given.optional "error" value .null⟩

def callError (config : Config) (method : String) (params : Json) (detail : String) : Error :=
  .rpc s!"{config.endpoint} {method}({params.render}) => {detail}"

/-- Issues a call and returns its result. -/
def call (method : String) (params : Json) : Query Json := do
  let config := (← get).config
  let answer ← modifyGet (Session.post method params)
  match answer with
  | .error error => throw (callError config method params error.message)
  | .ok body =>
    match Envelope.ofText? body with
    | none => throw (callError config method params s!"unreadable reply ({body})")
    | some envelope =>
      if envelope.error.isNull then return envelope.result
      else throw (callError config method params envelope.error.render)

/-- Issues a call and reads its result. -/
def callAs {α : Type} (decode : Decoder α) (method : String) (params : List Json) : Query α := do
  let result ← call method (.array params)
  match decode result.toTree with
  | some value => return value
  | none => throw (.rpc s!"{method} returned unexpected result: the fields do not fit")

end Custody.Node
