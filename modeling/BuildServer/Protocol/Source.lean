import BuildServer.Protocol.Target

/-!
# Sources and their compiler options

What belongs to a target: its files and directories, and for a single document the arguments that a
compiler takes for it.
-/

namespace BuildServer.Protocol

open BuildServer

/-- Whether a source is one file or everything below a directory. -/
inductive SourceKind
  | file
  | directory
  deriving DecidableEq

/-- A file or directory of a target. -/
structure SourceItem where
  uri : Uri
  kind : SourceKind
  generated : Bool
  dataKind : Option String := none
  data : Option Value := none
  deriving DecidableEq

/-- The sources of one target. -/
structure TargetSources where
  target : TargetId
  sources : List SourceItem
  roots : Option (List Uri) := none
  deriving DecidableEq

/-- The targets whose sources are asked for. -/
structure SourcesParams where
  targets : List TargetId
  deriving DecidableEq

/-- The sources of the targets asked for. -/
structure SourcesResult where
  items : List TargetSources
  deriving DecidableEq

/-- A document of the client. -/
structure TextDocument where
  uri : Uri
  deriving DecidableEq

/-- The document whose options are asked for, and the target it is compiled in. -/
structure OptionsParams where
  textDocument : TextDocument
  target : TargetId
  language : String := ""
  deriving DecidableEq

/-- The compiler arguments of a document. -/
structure OptionsResult where
  compilerArguments : List String
  workingDirectory : Option String := none
  data : Option Value := none
  deriving DecidableEq

instance : Coded SourceKind where
  enumeration := "SourceItemKind"
  code
    | .file => 1
    | .directory => 2
  ofCode? n := match n.toNat with
    | 1 => some .file
    | 2 => some .directory
    | _ => none
  label
    | .file => "File"
    | .directory => "Directory"

instance : Schema SourceKind := Coded.schema

/-- The record of a source. -/
def SourceItem.record : Record SourceItem where
  name := "SourceItem"
  layout := .cons (.required "uri") <| .cons (.required "kind") <| .cons (.required "generated") <|
    .cons (.optional "dataKind") <| .cons (.optional "data") .nil
  make := fun (uri, kind, generated, dataKind, data, ()) => ⟨uri, kind, generated, dataKind, data⟩
  contents x := (x.uri, x.kind, x.generated, x.dataKind, x.data, ())

instance : Schema SourceItem := SourceItem.record.schema

/-- The record of a target's sources. -/
def TargetSources.record : Record TargetSources where
  name := "SourcesItem"
  layout := .cons (.required "target") <| .cons (.required "sources") <|
    .cons (.optional "roots") .nil
  make := fun (target, sources, roots, ()) => ⟨target, sources, roots⟩
  contents x := (x.target, x.sources, x.roots, ())

instance : Schema TargetSources := TargetSources.record.schema

/-- The record of a request for sources. -/
def SourcesParams.record : Record SourcesParams where
  name := "BuildTargetSourcesParams"
  layout := .cons (.required "targets") .nil
  make := fun (targets, ()) => ⟨targets⟩
  contents x := (x.targets, ())

instance : Schema SourcesParams := SourcesParams.record.schema

/-- The record of the sources asked for. -/
def SourcesResult.record : Record SourcesResult where
  name := "BuildTargetSourcesResult"
  layout := .cons (.required "items") .nil
  make := fun (items, ()) => ⟨items⟩
  contents x := (x.items, ())

instance : Schema SourcesResult := SourcesResult.record.schema

/-- The record of a document. -/
def TextDocument.record : Record TextDocument where
  name := "TextDocumentIdentifier"
  layout := .cons (.required "uri") .nil
  make := fun (uri, ()) => ⟨uri⟩
  contents x := (x.uri, ())

instance : Schema TextDocument := TextDocument.record.schema

/-- The record of a request for options. -/
def OptionsParams.record : Record OptionsParams where
  name := "SourceKitOptionsParams"
  layout := .cons (.required "textDocument") <| .cons (.required "target") <|
    .cons (.withDefault "language" "") .nil
  make := fun (textDocument, target, language, ()) => ⟨textDocument, target, language⟩
  contents x := (x.textDocument, x.target, x.language, ())

instance : Schema OptionsParams := OptionsParams.record.schema

/-- The record of a document's options. -/
def OptionsResult.record : Record OptionsResult where
  name := "SourceKitOptionsResult"
  layout := .cons (.required "compilerArguments") <| .cons (.optional "workingDirectory") <|
    .cons (.optional "data") .nil
  make := fun (compilerArguments, workingDirectory, data, ()) =>
    ⟨compilerArguments, workingDirectory, data⟩
  contents x := (x.compilerArguments, x.workingDirectory, x.data, ())

instance : Schema OptionsResult := OptionsResult.record.schema

end BuildServer.Protocol
