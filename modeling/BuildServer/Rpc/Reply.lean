import BuildServer.Rpc.Message

/-!
# Owed replies

Whoever handles a request owes its reply. The reply is sent with an outcome, or it is given up, and
then the client learns that its request was abandoned; in both cases nothing is owed any more.
-/

namespace BuildServer.Rpc

open BuildServer

/-- A reply that has not been sent. -/
structure OwedReply where
  id : RequestId
  deriving DecidableEq

namespace OwedReply

/-- The response that pays the debt; without an outcome the request is abandoned. -/
def response (r : OwedReply) (outcome : Option Outcome) : Response :=
  ⟨some r.id, outcome.getD (.error .abandoned)⟩

/-- The identifier as it stands in a description. -/
def describeId : RequestId → String
  | .number n => "Number(" ++ String.ofList (Text.decimalInt n.toInt) ++ ")"
  | .text s => "String(" ++ Text.quote s ++ ")"

/-- The wording of an owed reply. -/
def describe (r : OwedReply) : String :=
  "ReplyHandle \x7b id: " ++ describeId r.id ++ ", pending: true \x7d"

end OwedReply

end BuildServer.Rpc
