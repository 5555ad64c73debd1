import BuildServer.Limit
import BuildServer.Schema.Record

/-!
# Settings of the server

Every setting has a default, so an empty record stands for all of them. A record with a member that
is no setting is refused. The format of the log is named by its text, or by an object whose only key
is that text.
-/

namespace BuildServer

open Json

/-- How log events are rendered. -/
inductive LogFormat
  | json
  | compact
  deriving DecidableEq

namespace LogFormat

/-- The name of a format. -/
def label : LogFormat → String
  | .json => "json"
  | .compact => "compact"

/-- The formats in order. -/
def all : List LogFormat := [.json, .compact]

/-- Whether the format may carry colours; output for machines never does. -/
def supportsColour : LogFormat → Bool
  | .json => false
  | .compact => true

/-- The format that a text names, whatever the case of its letters. -/
def ofText? (s : String) : Option LogFormat := all.find? fun f => Text.sameAscii s f.label

/-- The report that a text names no format. -/
def unknownMessage : String := "Matching variant not found"

/-- The format with exactly the given name. -/
def ofName (name : String) : Except Mismatch LogFormat :=
  match all.find? fun f => f.label == name with
  | some f => .ok f
  | none => .error (.unknownVariant name (all.map label))

/-- The content of an object that names a format. -/
def readUnit : Document → Except Mismatch Unit
  | .null => .ok ()
  | d => Schema.wrongType "unit" d

instance : Schema LogFormat where
  read
    | .string name => ofName name
    | .object [(name, d)] => do
      let format ← ofName name
      readUnit d
      return format
    | .object _ => .error (.wrongValue .map "map with a single key")
    | d => Schema.wrongType "string or map" d
  write f := .string f.label

end LogFormat

/-- The settings. -/
structure Settings where
  logFilter : String
  logFormat : LogFormat
  queueConcurrency : Option Limit
  serverVersion : String
  deriving DecidableEq

namespace Settings

def defaultLogFilter : String := "info"

def defaultLogFormat : LogFormat := .json

def defaultServerVersion : String := ""

/-- The settings where nothing is set: messages run without a limit. -/
def default : Settings := ⟨defaultLogFilter, defaultLogFormat, none, defaultServerVersion⟩

/-- The record of the settings. -/
def record : Record Settings where
  name := "AdapterConfig"
  layout := .cons (.withDefault "log_filter" default.logFilter) <|
    .cons (.withDefault "log_format" default.logFormat) <|
    .cons (.withDefault "queue_concurrency" default.queueConcurrency) <|
    .cons (.withDefault "server_version" default.serverVersion) .nil
  make := fun (logFilter, logFormat, queueConcurrency, serverVersion, ()) =>
    ⟨logFilter, logFormat, queueConcurrency, serverVersion⟩
  contents x := (x.logFilter, x.logFormat, x.queueConcurrency, x.serverVersion, ())
  closed := true

instance : Schema Settings := record.schema

/-- The same settings with another limit. -/
def withQueueConcurrency (s : Settings) (limit : Option Limit) : Settings :=
  { s with queueConcurrency := limit }

/-- The same settings with another version. -/
def withServerVersion (s : Settings) (version : String) : Settings :=
  { s with serverVersion := version }

end Settings

end BuildServer
