import BuildServer.Text.Basic
import BuildServer.Text.Quoted

/-!
# Kinds of backends

A backend is of a kind that the server knows by name or is supplied by the host of the server. Names
are recognised without regard to surrounding blanks and to case; a supplied backend has no name that
would be recognised.
-/

namespace BuildServer.Backend

open BuildServer

/-- The kinds with a name of their own. -/
inductive BuiltInKind
  | buildServer
  | jsonCompilationDatabase
  | fixedCompilationDatabase
  | packageManager
  deriving DecidableEq

/-- The name of a kind. -/
def BuiltInKind.name : BuiltInKind → String
  | .buildServer => "build-server"
  | .jsonCompilationDatabase => "json-compilation-database"
  | .fixedCompilationDatabase => "fixed-compilation-database"
  | .packageManager => "package-manager"

/-- The kinds with a name. -/
def BuiltInKind.all : List BuiltInKind :=
  [.buildServer, .jsonCompilationDatabase, .fixedCompilationDatabase, .packageManager]

/-- Where a backend comes from. -/
inductive Kind
  | builtIn (k : BuiltInKind)
  | injected
  deriving DecidableEq

namespace Kind

/-- The name of a kind. -/
def name : Kind → String
  | .builtIn k => k.name
  | .injected => "injected"

/-- The kind as it stands in a description. -/
def describe : Kind → String
  | .builtIn k => k.name
  | .injected => "Injected(..)"

/-- The text that is compared with the names. -/
def normalise (s : String) : String := String.ofList (Text.lowerAscii (Text.trim s.toList))

/-- The kind of a name; refused names are returned as they were compared. -/
def ofText (s : String) : Except String Kind :=
  match BuiltInKind.all.find? fun k => k.name == normalise s with
  | some k => .ok (.builtIn k)
  | none => .error (normalise s)

/-- The report that a name is refused. -/
def unsupportedMessage (refused : String) : String := "unsupported backend kind: " ++ refused

end Kind

/-- Which backend a session is about, and where its project lies. -/
structure Descriptor where
  kind : Kind
  projectRoot : String
  configPath : String
  deriving DecidableEq

namespace Descriptor

/-- The wording of a descriptor. -/
def describe (d : Descriptor) : String :=
  "BackendDescriptor \x7b kind: " ++ d.kind.describe ++ ", project_root: " ++
    Text.quote d.projectRoot ++ ", config_path: " ++ Text.quote d.configPath ++ " \x7d"

end Descriptor

end BuildServer.Backend
