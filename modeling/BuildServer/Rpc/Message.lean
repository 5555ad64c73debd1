import BuildServer.Rpc.Error
import BuildServer.Text.Quoted
import BuildServer.Value.Wire

/-!
# Messages

A message is a request, which is answered under its identifier, a notification, which is not
answered, or a response. All three are objects with the version of the envelope. A method makes an
object a request or a notification, and of the two it is a request exactly if it has an identifier
that is not null. Parameters that are null are left out. A response carries an error if it has one
that is not null, and otherwise a result, which has to be there even when it is null.
-/

namespace BuildServer.Rpc

open BuildServer

/-- The version of every envelope. -/
def version : String := "2.0"

/-- What ties a response to its request. -/
inductive RequestId
  | number (n : Int64)
  | text (s : String)
  deriving DecidableEq

/-- The wording of an identifier; a text is quoted. -/
def RequestId.describe : RequestId → String
  | .number n => String.ofList (Text.decimalInt n.toInt)
  | .text s => Text.quote s

instance : Codable RequestId where
  ofEntries? _ := none
  toValue
    | .number n => .int n
    | .text s => .string s
  ofValue?
    | .int n => some (.number n)
    | .string s => some (.text s)
    | _ => none

/-- A message that is answered once. -/
structure Request where
  id : RequestId
  method : String
  params : Value
  deriving DecidableEq

/-- A message that is not answered. -/
structure Notification where
  method : String
  params : Value
  deriving DecidableEq

/-- The answer to a request; without an identifier if that could not be told. -/
structure Response where
  id : Option RequestId
  outcome : Outcome
  deriving DecidableEq

/-- The object of a message with the given members. -/
def envelope (members : List (String × Value)) : Value :=
  .ofPairs (("jsonrpc", .string version) :: members)

/-- The member for parameters, unless they are null. -/
def paramsMember (params : Value) : List (String × Value) :=
  if params.isNull then [] else [("params", params)]

/-- The parameters of an object; none are null. -/
def paramsOf (entries : Entries) : Value := (entries.get? "params").getD .null

open Codable in
instance : Codable Request where
  ofEntries? entries := do
    return {
      id := ← requiredField entries "id"
      method := ← requiredField entries "method"
      params := paramsOf entries }
  toValue r := envelope
    ([("id", toValue r.id), ("method", .string r.method)] ++ paramsMember r.params)

open Codable in
instance : Codable Notification where
  ofEntries? entries := do
    return { method := ← requiredField entries "method", params := paramsOf entries }
  toValue n := envelope (("method", .string n.method) :: paramsMember n.params)

/-- The outcome that an object reports. -/
def outcomeOf? (entries : Entries) : Option Outcome :=
  let result? := (entries.get? "result").map .result
  match entries.get? "error" with
  | none | some .null => result?
  | some v => (Codable.ofValue? v).map .error

/-- The member for an outcome. -/
def outcomeMember : Outcome → String × Value
  | .result v => ("result", v)
  | .error e => ("error", Codable.toValue e)

open Codable in
instance : Codable Response where
  ofEntries? entries := do
    return { id := ← optionalField entries "id", outcome := ← outcomeOf? entries }
  toValue r := envelope [("id", toValue r.id), outcomeMember r.outcome]

/-- A message of any of the three forms. -/
inductive Message
  | request (r : Request)
  | notification (n : Notification)
  | response (r : Response)
  deriving DecidableEq

/-- Why bytes are no message. -/
inductive MessageError
  | malformed (e : Json.SyntaxError)
  | notAnObject
  | unsupportedVersion
  | unrecognised
  deriving DecidableEq

/-- The wording of a refusal. -/
def MessageError.message : MessageError → String
  | .malformed e => "malformed JSON payload: " ++ decodeMessage e
  | .notAnObject => "JSON-RPC message must be an object"
  | .unsupportedVersion => "unsupported JSON-RPC version"
  | .unrecognised => "message is not a request, notification or response"

namespace Message

open Codable in
/-- The message that the entries of an object give, whatever their version. -/
def ofEntries? (entries : Entries) : Option Message :=
  if entries.contains "method" then
    if ((entries.get? "id").getD .null).isNull then (Codable.ofEntries? entries).map .notification
    else (Codable.ofEntries? entries).map .request
  else (Codable.ofEntries? entries).map .response

/-- The message that a value gives. -/
def ofValue (v : Value) : Except MessageError Message :=
  match v.map? with
  | none => .error .notAnObject
  | some entries =>
    if (entries.get? "jsonrpc").bind Value.string? = some version then
      match ofEntries? entries with
      | some m => .ok m
      | none => .error .unrecognised
    else .error .unsupportedVersion

/-- The message that a payload holds. -/
def ofBytes (bytes : List UInt8) : Except MessageError Message :=
  match Value.decode bytes with
  | .error e => .error (.malformed e)
  | .ok v => ofValue v

/-- The object of a message. -/
def toValue : Message → Value
  | .request r => Codable.toValue r
  | .notification n => Codable.toValue n
  | .response r => Codable.toValue r

/-- The payload of a message. -/
def toBytes (m : Message) : List UInt8 := m.toValue.encode

end Message

end BuildServer.Rpc
