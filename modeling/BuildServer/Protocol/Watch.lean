import BuildServer.Schema.Record
import BuildServer.Uri

/-!
# Watched files

The server names the files whose changes it wants to hear of, and the client reports changes. A
watched pattern is a text of its own or is relative to a base, which is a workspace folder or a URI;
the form of the data alone tells which, tried in that order.
-/

namespace BuildServer.Protocol

open BuildServer Json

/-- A change of a file; the number says how it changed. -/
structure FileEvent where
  uri : Uri
  change : Int32
  deriving DecidableEq

/-- The files that changed. -/
structure FilesChanged where
  changes : List FileEvent
  deriving DecidableEq

/-- A folder of the client's workspace. -/
structure WorkspaceFolder where
  uri : Uri
  name : String
  deriving DecidableEq

/-- What a relative pattern is relative to. -/
inductive PatternBase
  | folder (f : WorkspaceFolder)
  | uri (u : Uri)
  deriving DecidableEq

/-- A pattern below a base. -/
structure RelativePattern where
  base : PatternBase
  pattern : String
  deriving DecidableEq

/-- The files that a watcher is about. -/
inductive GlobPattern
  | text (s : String)
  | relative (p : RelativePattern)
  deriving DecidableEq

/-- The changes that a watcher is about. -/
structure WatchKind where
  create : Bool
  change : Bool
  delete : Bool
  deriving DecidableEq

/-- A watcher; without a kind it is about every change. -/
structure Watcher where
  pattern : GlobPattern
  kind : Option WatchKind := none
  deriving DecidableEq

/-- The record of a file's change. -/
def FileEvent.record : Record FileEvent where
  name := "FileEvent"
  layout := .cons (.required "uri") <| .cons (.required "type") .nil
  make := fun (uri, change, ()) => ⟨uri, change⟩
  contents x := (x.uri, x.change, ())

instance : Schema FileEvent := FileEvent.record.schema

/-- The record of the files that changed. -/
def FilesChanged.record : Record FilesChanged where
  name := "DidChangeWatchedFilesParams"
  layout := .cons (.required "changes") .nil
  make := fun (changes, ()) => ⟨changes⟩
  contents x := (x.changes, ())

instance : Schema FilesChanged := FilesChanged.record.schema

/-- The record of a workspace folder. -/
def WorkspaceFolder.record : Record WorkspaceFolder where
  name := "WorkspaceFolder"
  layout := .cons (.required "uri") <| .cons (.required "name") .nil
  make := fun (uri, name, ()) => ⟨uri, name⟩
  contents x := (x.uri, x.name, ())

instance : Schema WorkspaceFolder := WorkspaceFolder.record.schema

/-- The first alternative that data fits; `union` is named when it fits none. -/
def firstFit {α : Type} (union : String) (alternatives : List (Except Mismatch α)) :
    Except Mismatch α :=
  match alternatives.findSome? Except.toOption with
  | some a => .ok a
  | none => .error (.noVariant union)

instance : Schema PatternBase where
  read d := firstFit "OneOf" [(Schema.read d).map .folder, (Schema.read d).map .uri]
  write
    | .folder f => Schema.write f
    | .uri u => Schema.write u

/-- The record of a relative pattern. -/
def RelativePattern.record : Record RelativePattern where
  name := "RelativePattern"
  layout := .cons (.required "baseUri") <| .cons (.required "pattern") .nil
  make := fun (base, pattern, ()) => ⟨base, pattern⟩
  contents x := (x.base, x.pattern, ())

instance : Schema RelativePattern := RelativePattern.record.schema

instance : Schema GlobPattern where
  read d := firstFit "GlobPattern" [(Schema.read d).map .text, (Schema.read d).map .relative]
  write
    | .text s => Schema.write s
    | .relative p => Schema.write p

namespace WatchKind

/-- The number of a kind: one for creation, two for changes, four for deletion. -/
def code (k : WatchKind) : UInt8 :=
  (if k.create then 1 else 0) + (if k.change then 2 else 0) + (if k.delete then 4 else 0)

/-- The kind with the given number. -/
def ofCode? (n : UInt8) : Option WatchKind :=
  if n.toNat < 8 then some ⟨n.toNat.testBit 0, n.toNat.testBit 1, n.toNat.testBit 2⟩ else none

instance : Schema WatchKind where
  read d := do
    let n : UInt8 ← Schema.read d
    match ofCode? n with
    | some k => .ok k
    | none => .error (.wrongValue (.integer n.toNat) "Unknown flag")
  write k := Schema.write k.code

end WatchKind

/-- The record of a watcher. -/
def Watcher.record : Record Watcher where
  name := "FileSystemWatcher"
  layout := .cons (.required "globPattern") <| .cons (.placed "kind") .nil
  make := fun (pattern, kind, ()) => ⟨pattern, kind⟩
  contents x := (x.pattern, x.kind, ())

instance : Schema Watcher := Watcher.record.schema

end BuildServer.Protocol
