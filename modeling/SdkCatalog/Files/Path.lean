import SdkCatalog.Text.Basic

/-! File paths as text and as lists of names. A path is written without empty names and without
single dots; double dots stay, because what they lead to depends on the files. -/

namespace SdkCatalog

/-- Where a path starts. -/
inductive Anchor where
  | relative
  | root
  /-- At the root, written with two slashes, which are kept. -/
  | doubleRoot
  deriving DecidableEq

/-- A file path: where it starts and the names that lead from there. -/
structure Path where
  anchor : Anchor
  names : List String
  deriving DecidableEq

namespace Path

/-- The anchor that a text begins with: three slashes or more count as one. -/
def anchorOf (cs : List Char) : Anchor :=
  match (cs.takeWhile (· == '/')).length with
  | 0 => .relative
  | 2 => .doubleRoot
  | _ => .root

/-- A piece between slashes that is kept: neither empty nor a single dot. -/
def isName (piece : String) : Bool :=
  piece != "" && piece != "."

def ofString (text : String) : Path :=
  ⟨anchorOf text.toList, ((Text.pieces '/' text.toList).map String.ofList).filter isName⟩

def absolute (names : List String) : Path :=
  ⟨.root, names⟩

def anchorText : Anchor → String
  | .relative => ""
  | .root => "/"
  | .doubleRoot => "//"

/-- The text of a path, a single dot when there is nothing else to write. -/
def text (path : Path) : String :=
  match path.anchor, path.names with
  | .relative, [] => "."
  | anchor, names => anchorText anchor ++ "/".intercalate names

/-- One path continued by another; one that starts at the root replaces what is before it. -/
def join (path other : Path) : Path :=
  match other.anchor with
  | .relative => ⟨path.anchor, path.names ++ other.names⟩
  | _ => other

/-- A path continued by the path that a text spells. -/
def child (path : Path) (text : String) : Path :=
  path.join (ofString text)

/-- The last name of a path, empty when it has none. -/
def name (path : Path) : String :=
  path.names.getLast?.getD ""

def parent (path : Path) : Path :=
  { path with names := path.names.dropLast }

/-- The rest of a path below a directory that its names begin with. -/
def below? (directory path : Path) : Option Path :=
  if path.anchor = directory.anchor ∧ directory.names.isPrefixOf path.names then
    some ⟨.relative, path.names.drop directory.names.length⟩
  else none

/-- A name in the path holds the null character, which no file name can. -/
def hasNull (path : Path) : Bool :=
  path.names.any fun name => name.toList.contains (Char.ofNat 0)

/-- The names that remain when each pair of dots takes back the name before it. -/
def collapse (names : List String) : List String :=
  names.foldl (fun done name => if name = ".." then done.dropLast else done ++ [name]) []

end Path

end SdkCatalog
