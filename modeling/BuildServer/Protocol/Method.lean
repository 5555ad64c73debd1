import BuildServer.Protocol.Handshake
import BuildServer.Protocol.Source

/-!
# Methods

Each method of the protocol has a name and the types of what it carries: parameters, and for a
request a result as well. The tables list what the client may ask for and may report; the one
notification that the server sends by itself stands apart.
-/

namespace BuildServer.Protocol

open BuildServer

/-- The revision of the protocol that the server announces. -/
def revision : String := "2.2.0"

/-- A method that is answered. -/
structure RequestMethod (Params Result : Type) where
  name : String

/-- A method that is not answered. -/
structure NotificationMethod (Params : Type) where
  name : String

namespace Method

/-- The handshake, which tells the client what the server can do. -/
def handshake : RequestMethod InitializeParams InitializeResult := ⟨"build/initialize"⟩

/-- The end of the work, ahead of the exit. -/
def shutdown : RequestMethod NoParams Acknowledgement := ⟨"build/shutdown"⟩

/-- Brings targets to where they can be indexed. -/
def prepare : RequestMethod PrepareParams Acknowledgement := ⟨"buildTarget/prepare"⟩

/-- Lists the sources of targets. -/
def sources : RequestMethod SourcesParams SourcesResult := ⟨"buildTarget/sources"⟩

/-- Gives the compiler arguments of a document, if there are any. -/
def options : RequestMethod OptionsParams (Option OptionsResult) :=
  ⟨"textDocument/sourceKitOptions"⟩

/-- Lists the targets of the workspace. -/
def targets : RequestMethod NoParams Targets := ⟨"workspace/buildTargets"⟩

/-- Is answered once changes of the build system have taken effect. -/
def awaitUpdates : RequestMethod NoParams Acknowledgement :=
  ⟨"workspace/waitForBuildSystemUpdates"⟩

/-- The client has taken in the answer to the handshake. -/
def initialized : NotificationMethod NoParams := ⟨"build/initialized"⟩

/-- The client is gone. -/
def exit : NotificationMethod NoParams := ⟨"build/exit"⟩

/-- Watched files changed. -/
def filesChanged : NotificationMethod FilesChanged := ⟨"workspace/didChangeWatchedFiles"⟩

/-- Targets changed; the server sends this. -/
def targetsChanged : NotificationMethod TargetsChanged := ⟨"buildTarget/didChange"⟩

/-- The names of all methods. -/
def names : List String :=
  [handshake.name, shutdown.name, prepare.name, sources.name, options.name, targets.name,
    awaitUpdates.name, initialized.name, exit.name, filesChanged.name, targetsChanged.name]

end Method

/-- A request of the client with its parameters read. -/
inductive Query
  | handshake (params : InitializeParams)
  | shutdown (params : NoParams)
  | prepare (params : PrepareParams)
  | sources (params : SourcesParams)
  | options (params : OptionsParams)
  | targets (params : NoParams)
  | awaitUpdates (params : NoParams)
  deriving DecidableEq

/-- A notification of the client with its parameters read. -/
inductive Notice
  | initialized (params : NoParams)
  | exit (params : NoParams)
  | filesChanged (params : FilesChanged)
  deriving DecidableEq

/-- Reads parameters; null stands for an empty map. -/
def readParams {α : Type} [Schema α] (params : Value) : Except CodecError α :=
  (if params.isNull then .map [] else params : Value).toTyped

/-- A way to read parameters as `α`. -/
abbrev Reader (α : Type) := Value → Except CodecError α

/-- How the parameters of each request are read. -/
def Query.readers : List (String × Reader Query) :=
  [(Method.handshake.name, fun v => (readParams v).map .handshake),
    (Method.shutdown.name, fun v => (readParams v).map .shutdown),
    (Method.prepare.name, fun v => (readParams v).map .prepare),
    (Method.sources.name, fun v => (readParams v).map .sources),
    (Method.options.name, fun v => (readParams v).map .options),
    (Method.targets.name, fun v => (readParams v).map .targets),
    (Method.awaitUpdates.name, fun v => (readParams v).map .awaitUpdates)]

/-- How the parameters of each notification are read. -/
def Notice.readers : List (String × Reader Notice) :=
  [(Method.initialized.name, fun v => (readParams v).map .initialized),
    (Method.exit.name, fun v => (readParams v).map .exit),
    (Method.filesChanged.name, fun v => (readParams v).map .filesChanged)]

/-- The request that a method and its parameters make, if the method is served. -/
def Query.read? (method : String) (params : Value) : Option (Except CodecError Query) :=
  (readers.lookup method).map fun reader => reader params

/-- The notification that a method and its parameters make, if the method is served. -/
def Notice.read? (method : String) (params : Value) : Option (Except CodecError Notice) :=
  (readers.lookup method).map fun reader => reader params

end BuildServer.Protocol
