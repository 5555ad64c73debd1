import BuildServer.Text.Basic
import BuildServer.Value.Codable

/-!
# Error replies

A request that is not answered with a result is answered with an error object: a code, a message for
people and, where it helps, structured data. The codes below are the ones the server chooses itself;
a backend may choose any other.
-/

namespace BuildServer.Rpc

open BuildServer

/-- The number that tells the client what kind of failure an error is. -/
structure ErrorCode where
  value : Int64
  deriving DecidableEq

namespace ErrorCode

/-- The payload is not JSON. -/
def parseError : ErrorCode := ⟨-32700⟩

/-- The payload is no request. -/
def invalidRequest : ErrorCode := ⟨-32600⟩

/-- Nothing serves the method. -/
def methodNotFound : ErrorCode := ⟨-32601⟩

/-- The parameters are not of the form that the method takes. -/
def invalidParams : ErrorCode := ⟨-32602⟩

/-- The server failed. -/
def internalError : ErrorCode := ⟨-32603⟩

/-- The request is sound but cannot be served now. -/
def requestFailed : ErrorCode := ⟨-32803⟩

end ErrorCode

/-- What a client gets in place of a result. -/
structure ResponseError where
  code : ErrorCode
  message : String
  data : Option Value := none
  deriving DecidableEq

namespace ResponseError

/-- The wording of an error, with its code. -/
def describe (e : ResponseError) : String :=
  e.message ++ " (code: " ++ String.ofList (Text.decimalInt e.code.value.toInt) ++ ")"

/-- The answer to a method that nothing serves. -/
def methodNotFound (method : String) : ResponseError :=
  { code := .methodNotFound, message := "method not found: " ++ method }

/-- The answer to parameters that do not fit; `detail` says why. -/
def invalidParams (method detail : String) : ResponseError :=
  { code := .invalidParams, message := "invalid params for " ++ method ++ ": " ++ detail }

/-- The answer where the server itself failed. -/
def internal (message : String) : ResponseError := { code := .internalError, message }

/-- The answer to a request that comes after the shutdown. -/
def shuttingDown (method : String) : ResponseError :=
  { code := .requestFailed, message := "build server is shutting down; rejected " ++ method }

/-- The answer to a request whose handling ended without one. -/
def abandoned : ResponseError := internal "request was abandoned before it completed"

/-- The same error with structured data. -/
def withData (e : ResponseError) (v : Value) : ResponseError := { e with data := some v }

open Codable in
instance : Codable ResponseError where
  ofEntries? entries := do
    return {
      code := ⟨← requiredField entries "code"⟩
      message := ← requiredField entries "message"
      data := ← optionalField entries "data" }
  toValue e := .ofPairs ([("code", .int e.code.value), ("message", .string e.message)] ++
    e.data.toList.map fun v => ("data", v))

end ResponseError

/-- How a request ends for its client. -/
inductive Outcome
  | result (v : Value)
  | error (e : ResponseError)
  deriving DecidableEq

end BuildServer.Rpc
