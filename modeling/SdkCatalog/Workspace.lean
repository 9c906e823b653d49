import SdkCatalog.Session
import SdkCatalog.Text.Basic

/-! Finding and reading the sources of a workspace. Its root is the nearest directory that holds a
marker, and a source that cannot be read counts as empty, which the journal tells. -/

namespace SdkCatalog

namespace Path

/-- A path and those above it, up to where it starts. -/
def upward (path : Path) : List Path :=
  (List.range (path.names.length + 1)).map fun count =>
    { path with names := path.names.take (path.names.length - count) }

end Path

namespace Workspace

/-- The marker that tells a root when no other is named. -/
def defaultMarker : String := "pnpm-workspace.yaml"

/-- The nearest directory from a start upward in which a marker leads to something. -/
def rootAbove? (files : Files) (start : Path) (marker : String) : Option Path :=
  start.upward.find? fun directory => files.present (directory.child marker)

/-- The root of the workspace that a path lies in. A file stands for its directory. -/
def root (files : Files) (path : Path) (marker : String) : Except Failure Path :=
  match files.expandHome path with
  | none => .error .homeUnknown
  | some expanded => do
    let resolved ← (files.resolve expanded).mapError .file
    let start := if files.isFile resolved then resolved.parent else resolved
    match rootAbove? files start marker with
    | some found => .ok found
    | none => .error (.noWorkspace path.text marker)

/-- The text of a source, empty if it cannot be read. -/
def readSource (path : Path) : Action String := do
  if ← Action.ask (·.isFile path) then
    match ← Action.ask (·.unmarkedText path) with
    | .ok cs => return String.ofList cs
    | .error fault =>
      Action.report .warning "sources" s!"Failed to read file {path.text}: {fault.message}"
      return ""
  else
    Action.report .debug "sources" s!"Source file missing: {path.text}"
    return ""

/-- The regular files in a directory whose names end in one of the suffixes, in the order of their
names. -/
def sourceFiles (files : Files) (directory : Path) (suffixes : List String) : List Path :=
  let names := (files.names directory).filter fun name =>
    suffixes.any fun suffix => Text.endsWith suffix.toList name.toList
  ((names.mergeSort fun a b => a ≤ b).map fun name =>
    { directory with names := directory.names ++ [name] }).filter files.isFile

end Workspace

end SdkCatalog
