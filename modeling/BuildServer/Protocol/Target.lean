import BuildServer.Schema.Record
import BuildServer.Uri

/-!
# Build targets

A target is a unit of the workspace that the build system can prepare. It is known by a URI; what
else the client learns about it are its place, its tags and languages, the targets it depends on and
what can be done with it.
-/

namespace BuildServer.Protocol

open BuildServer

/-- The parameters of methods that take none. -/
structure NoParams where
  deriving DecidableEq, Inhabited

/-- The result of methods that only acknowledge. -/
structure Acknowledgement where
  deriving DecidableEq, Inhabited

/-- The identity of a target. -/
structure TargetId where
  uri : Uri
  deriving DecidableEq

/-- What the build system can do with a target, as far as it says. -/
structure TargetCapabilities where
  canCompile : Option Bool := none
  canTest : Option Bool := none
  canRun : Option Bool := none
  deriving DecidableEq

/-- A target as the client sees it. -/
structure Target where
  id : TargetId
  displayName : Option String := none
  baseDirectory : Option Uri := none
  tags : List String := []
  languageIds : List String := []
  dependencies : List TargetId := []
  capabilities : TargetCapabilities := {}
  dataKind : Option String := none
  data : Option Value := none
  deriving DecidableEq

/-- Every target of the workspace. -/
structure Targets where
  targets : List Target
  deriving DecidableEq

/-- How a target changed. -/
inductive TargetEventKind
  | created
  | changed
  | deleted
  deriving DecidableEq

/-- One changed target. -/
structure TargetEvent where
  target : TargetId
  kind : Option TargetEventKind := none
  dataKind : Option String := none
  data : Option Value := none
  deriving DecidableEq

/-- The targets that changed; nothing asks the client to reload them all. -/
structure TargetsChanged where
  changes : Option (List TargetEvent)
  deriving DecidableEq

/-- The targets to prepare. -/
structure PrepareParams where
  targets : List TargetId
  originId : Option String := none
  deriving DecidableEq

instance : Schema NoParams := Record.schema
  { name := "VoidParams", layout := .nil, make := fun () => {}, contents := fun _ => () }

instance : Schema Acknowledgement := Record.schema
  { name := "VoidResponse", layout := .nil, make := fun () => {}, contents := fun _ => () }

/-- The record of a target's identity. -/
def TargetId.record : Record TargetId where
  name := "BuildTargetIdentifier"
  layout := .cons (.required "uri") .nil
  make := fun (uri, ()) => ⟨uri⟩
  contents x := (x.uri, ())

instance : Schema TargetId := TargetId.record.schema

/-- The record of a target's capabilities. -/
def TargetCapabilities.record : Record TargetCapabilities where
  name := "BuildTargetCapabilities"
  layout := .cons (.optional "canCompile") <| .cons (.optional "canTest") <|
    .cons (.optional "canRun") .nil
  make := fun (canCompile, canTest, canRun, ()) => ⟨canCompile, canTest, canRun⟩
  contents x := (x.canCompile, x.canTest, x.canRun, ())

instance : Schema TargetCapabilities := TargetCapabilities.record.schema

/-- The record of a target. -/
def Target.record : Record Target where
  name := "BuildTarget"
  layout := .cons (.required "id") <| .cons (.optional "displayName") <|
    .cons (.optional "baseDirectory") <| .cons (.withDefault "tags" []) <|
    .cons (.withDefault "languageIds" []) <| .cons (.withDefault "dependencies" []) <|
    .cons (.withDefault "capabilities" {}) <| .cons (.optional "dataKind") <|
    .cons (.optional "data") .nil
  make := fun (id, displayName, baseDirectory, tags, languageIds, dependencies, capabilities,
    dataKind, data, ()) =>
    ⟨id, displayName, baseDirectory, tags, languageIds, dependencies, capabilities, dataKind, data⟩
  contents x := (x.id, x.displayName, x.baseDirectory, x.tags, x.languageIds, x.dependencies,
    x.capabilities, x.dataKind, x.data, ())

instance : Schema Target := Target.record.schema

/-- The record of the workspace's targets. -/
def Targets.record : Record Targets where
  name := "WorkspaceBuildTargetsResult"
  layout := .cons (.required "targets") .nil
  make := fun (targets, ()) => ⟨targets⟩
  contents x := (x.targets, ())

instance : Schema Targets := Targets.record.schema

instance : Coded TargetEventKind where
  enumeration := "BuildTargetEventKind"
  code
    | .created => 1
    | .changed => 2
    | .deleted => 3
  ofCode? n := match n.toNat with
    | 1 => some .created
    | 2 => some .changed
    | 3 => some .deleted
    | _ => none
  label
    | .created => "Created"
    | .changed => "Changed"
    | .deleted => "Deleted"

instance : Schema TargetEventKind := Coded.schema

/-- The record of a changed target. -/
def TargetEvent.record : Record TargetEvent where
  name := "BuildTargetEvent"
  layout := .cons (.required "target") <| .cons (.optional "kind") <|
    .cons (.optional "dataKind") <| .cons (.optional "data") .nil
  make := fun (target, kind, dataKind, data, ()) => ⟨target, kind, dataKind, data⟩
  contents x := (x.target, x.kind, x.dataKind, x.data, ())

instance : Schema TargetEvent := TargetEvent.record.schema

/-- The record of the targets that changed. -/
def TargetsChanged.record : Record TargetsChanged where
  name := "OnBuildTargetDidChangeParams"
  layout := .cons (.nullable "changes") .nil
  make := fun (changes, ()) => ⟨changes⟩
  contents x := (x.changes, ())

instance : Schema TargetsChanged := TargetsChanged.record.schema

/-- The record of a request to prepare. -/
def PrepareParams.record : Record PrepareParams where
  name := "BuildTargetPrepareParams"
  layout := .cons (.required "targets") <| .cons (.optional "originId") .nil
  make := fun (targets, originId, ()) => ⟨targets, originId⟩
  contents x := (x.targets, x.originId, ())

instance : Schema PrepareParams := PrepareParams.record.schema

end BuildServer.Protocol
