import BuildServer.Protocol.Watch
import BuildServer.Value.Codable

/-!
# The handshake

The client introduces itself with parameters that are all optional, and the server answers with its
name, its version and what it can do. Everything beyond the standard protocol travels in an
extension payload of its own kind. That payload is read leniently: whatever is missing or null is
taken as unknown, unset or empty.
-/

namespace BuildServer.Protocol

open BuildServer

/-- What the client can work with. -/
structure ClientCapabilities where
  languageIds : List String := []
  deriving DecidableEq

/-- How the client introduces itself. -/
structure InitializeParams where
  displayName : String := ""
  version : String := ""
  bspVersion : String := ""
  rootUri : Option Uri := none
  capabilities : ClientCapabilities := {}
  dataKind : Option String := none
  data : Option Value := none
  deriving DecidableEq

/-- The standard capabilities of the server, of which there are none. -/
structure ServerCapabilities where
  deriving DecidableEq, Inhabited

/-- How the server introduces itself. -/
structure InitializeResult where
  displayName : String
  version : String
  bspVersion : String
  capabilities : ServerCapabilities
  dataKind : Option String := none
  data : Option Value := none
  deriving DecidableEq

/-- What the server can do beyond the standard protocol. -/
structure Extension where
  indexDatabasePath : Option String := none
  indexStorePath : Option String := none
  outputPathsProvider : Bool := false
  prepareProvider : Bool := false
  optionsProvider : Bool := false
  watchers : List Watcher := []
  deriving DecidableEq

/-- The record of the client's capabilities. -/
def ClientCapabilities.record : Record ClientCapabilities where
  name := "BuildClientCapabilities"
  layout := .cons (.withDefault "languageIds" []) .nil
  make := fun (languageIds, ()) => ⟨languageIds⟩
  contents x := (x.languageIds, ())

instance : Schema ClientCapabilities := ClientCapabilities.record.schema

/-- The record of the client's introduction. -/
def InitializeParams.record : Record InitializeParams where
  name := "InitializeBuildParams"
  layout := .cons (.withDefault "displayName" "") <| .cons (.withDefault "version" "") <|
    .cons (.withDefault "bspVersion" "") <| .cons (.withDefault "rootUri" none) <|
    .cons (.withDefault "capabilities" {}) <| .cons (.withDefault "dataKind" none) <|
    .cons (.withDefault "data" none) .nil
  make := fun (displayName, version, bspVersion, rootUri, capabilities, dataKind, data, ()) =>
    ⟨displayName, version, bspVersion, rootUri, capabilities, dataKind, data⟩
  contents x := (x.displayName, x.version, x.bspVersion, x.rootUri, x.capabilities, x.dataKind,
    x.data, ())

instance : Schema InitializeParams := InitializeParams.record.schema

instance : Schema ServerCapabilities := Record.schema
  { name := "BuildServerCapabilities"
    layout := .nil
    make := fun () => {}
    contents := fun _ => () }

/-- The record of the server's introduction. -/
def InitializeResult.record : Record InitializeResult where
  name := "InitializeBuildResult"
  layout := .cons (.required "displayName") <| .cons (.required "version") <|
    .cons (.required "bspVersion") <| .cons (.required "capabilities") <|
    .cons (.optional "dataKind") <| .cons (.optional "data") .nil
  make := fun (displayName, version, bspVersion, capabilities, dataKind, data, ()) =>
    ⟨displayName, version, bspVersion, capabilities, dataKind, data⟩
  contents x := (x.displayName, x.version, x.bspVersion, x.capabilities, x.dataKind, x.data, ())

instance : Schema InitializeResult := InitializeResult.record.schema

namespace Extension

/-- The kind that marks the payload. -/
def kind : String := "sourceKit"

/-- The watchers of a payload; the entry may be missing or null. -/
def readWatchers? (entries : Entries) : Option (List Watcher) :=
  match entries.get? "watchers" with
  | none | some .null => some []
  | some v => (v.toTyped).toOption

open Codable in
instance : Codable Extension where
  ofEntries? entries := do
    let watchers ← readWatchers? entries
    return {
      indexDatabasePath := ← optionalField entries "indexDatabasePath"
      indexStorePath := ← optionalField entries "indexStorePath"
      outputPathsProvider := (← optionalField entries "outputPathsProvider").getD false
      prepareProvider := (← optionalField entries "prepareProvider").getD false
      optionsProvider := (← optionalField entries "sourceKitOptionsProvider").getD false
      watchers }
  toValue x := .ofPairs [
    ("indexDatabasePath", toValue x.indexDatabasePath),
    ("indexStorePath", toValue x.indexStorePath),
    ("outputPathsProvider", toValue x.outputPathsProvider),
    ("prepareProvider", toValue x.prepareProvider),
    ("sourceKitOptionsProvider", toValue x.optionsProvider),
    ("watchers", .ofTyped x.watchers)]

end Extension

end BuildServer.Protocol
