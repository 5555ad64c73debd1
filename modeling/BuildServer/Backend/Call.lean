import BuildServer.Protocol.Handshake
import BuildServer.Protocol.Source
import BuildServer.Rpc.Error

/-!
# Calls to the backend

A session asks its backend for what it cannot know itself. Each call has a type of answer; an answer
that may fail carries the failure of the backend, which the client gets to see.
-/

namespace BuildServer.Backend

open BuildServer Protocol Rpc

/-- A failure that a backend reports. -/
structure Failure where
  message : String
  code : Option ErrorCode := none
  source : Option String := none
  deriving DecidableEq

/-- The answer to a request that failed in the backend; the code is the backend's if it has one. -/
def Failure.toResponse (e : Failure) : ResponseError :=
  { code := e.code.getD .requestFailed, message := e.message }

/-- What a session may ask of its backend. -/
inductive Call
  | supportsPreparation
  | indexDatabase
  | indexStore
  | watchers
  | displayName
  | prepare (targets : List TargetId)
  | sources (targets : List TargetId)
  | options (params : OptionsParams)
  | targets
  | awaitUpdates
  | filesChanged (changes : List FileEvent)
  deriving DecidableEq

/-- What a backend may answer. -/
def Call.Answer : Call → Type
  | supportsPreparation => Bool
  | indexDatabase | indexStore => Except Failure (Option String)
  | watchers => List Watcher
  | displayName => String
  | prepare _ => Except Failure Unit
  | sources _ => Except Failure SourcesResult
  | options _ => Except Failure (Option OptionsResult)
  | targets => Except Failure Targets
  | awaitUpdates | filesChanged _ => Unit

/-- A backend at one moment: what it answers to each call, and nothing where it breaks down. -/
abbrev Answers := (c : Call) → Option c.Answer

/-- Why a session did not come to be. -/
structure StartupError where
  kind : String
  failure : Failure

/-- The wording of a failed start. -/
def StartupError.message (e : StartupError) : String :=
  "failed to start " ++ e.kind ++ " backend: " ++ e.failure.message

end BuildServer.Backend
