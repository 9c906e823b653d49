import SdkCatalog.Files.Path

/-! The files of a machine: directories, regular files and symbolic links by location. Paths are
followed as an operating system does: links lead on from where they stand, and a pair of dots
leads to the directory above. -/

namespace SdkCatalog

/-- The names that lead from the root to a file, without links or dots on the way. -/
abbrev Location := List String

/-- What stands at a location. -/
inductive Entry where
  /-- A regular file and its bytes. -/
  | file (content : List UInt8)
  | directory
  /-- A symbolic link and the text it leads to. -/
  | link (target : String)
  deriving DecidableEq

/-- The files of a machine. No location is listed twice, and the root is a directory without
being listed. -/
structure FileTree where
  entries : List (Location × Entry)
  distinct : (entries.map (·.1)).Nodup

namespace FileTree

def empty : FileTree :=
  ⟨[], by simp⟩

def entry? (tree : FileTree) (place : Location) : Option Entry :=
  if place = [] then some .directory else (tree.entries.find? (·.1 = place)).map (·.2)

/-- A directory stands at a location. -/
def hasDirectory (tree : FileTree) (place : Location) : Bool :=
  tree.entry? place = some .directory

/-- The list of entries with one put at a location, in the place of the one that stood there. -/
def putEntry : List (Location × Entry) → Location → Entry → List (Location × Entry)
  | [], place, entry => [(place, entry)]
  | (first, old) :: rest, place, entry =>
    if first = place then (first, entry) :: rest else (first, old) :: putEntry rest place entry

/-- An entry is put at one of the locations that are listed, or at a new one. -/
theorem mem_putEntry {entries : List (Location × Entry)} {place other : Location} {entry : Entry}
    (h : other ∈ (putEntry entries place entry).map (·.1)) :
    other = place ∨ other ∈ entries.map (·.1) := by
  induction entries with
  | nil => simpa [putEntry] using h
  | cons first rest ih =>
    obtain ⟨place', old⟩ := first
    simp only [putEntry] at h
    split at h
    · exact .inr (by simpa using h)
    · simp only [List.map_cons, List.mem_cons] at h ⊢
      rcases h with h | h
      · exact .inr (.inl h)
      · rcases ih h with h | h
        · exact .inl h
        · exact .inr (.inr h)

theorem nodup_putEntry {entries : List (Location × Entry)} (place : Location) (entry : Entry)
    (h : (entries.map (·.1)).Nodup) : ((putEntry entries place entry).map (·.1)).Nodup := by
  induction entries with
  | nil => simp [putEntry]
  | cons first rest ih =>
    obtain ⟨place', old⟩ := first
    simp only [List.map_cons, List.nodup_cons] at h
    simp only [putEntry]
    split
    · simpa using h
    · next hne =>
      simp only [List.map_cons, List.nodup_cons]
      refine ⟨fun hmem => ?_, ih h.2⟩
      rcases mem_putEntry hmem with heq | hin
      · exact hne heq
      · exact h.1 hin

/-- The tree with an entry put at a location. -/
def put (tree : FileTree) (place : Location) (entry : Entry) : FileTree :=
  ⟨putEntry tree.entries place entry, nodup_putEntry place entry tree.distinct⟩

/-- The tree without a location and everything below it. -/
def remove (tree : FileTree) (place : Location) : FileTree :=
  ⟨tree.entries.filter (!place.isPrefixOf ·.1),
    tree.distinct.sublist (List.filter_sublist.map _)⟩

/-- The names directly below a location. -/
def namesIn (tree : FileTree) (place : Location) : List String :=
  tree.entries.filterMap fun (other, _) =>
    match other.getLast? with
    | some name => if other.dropLast = place then some name else none
    | none => none

/-- What a path leads to. -/
inductive Found where
  /-- An entry and its location. -/
  | entry (place : Location) (entry : Entry)
  /-- Nothing, at a location in an existing directory. -/
  | vacant (place : Location)
  deriving DecidableEq

/-- Why a path leads nowhere. -/
inductive Obstacle where
  | missing
  /-- A regular file stands on the way. -/
  | notDirectory
  | tooManyLinks
  deriving DecidableEq

/-- The location where a link's target starts, for a link in a directory. -/
def targetStart (directory : Location) (target : Path) : Location :=
  match target.anchor with
  | .relative => directory
  | _ => []

/-- Follows names from a directory. Links are followed as they are met, so two dots lead above a
link's target; a link in last place is only followed on request, and how any other goes on is told
by the caller. In a directory that has been removed there is no place for anything. -/
def followNames (tree : FileTree) (onLink : Location → List String → Except Obstacle Found)
    (last : Bool) : Location → List String → Except Obstacle Found
  | here, [] => .ok (.entry here .directory)
  | here, name :: rest =>
    if name = ".." then followNames tree onLink last here.dropLast rest
    else
      let place := here ++ [name]
      match tree.entry? place with
      | none =>
        if rest.isEmpty && tree.hasDirectory here then .ok (.vacant place) else .error .missing
      | some .directory => followNames tree onLink last place rest
      | some (.file content) =>
        if rest.isEmpty then .ok (.entry place (.file content)) else .error .notDirectory
      | some (.link target) =>
        if rest.isEmpty && !last then .ok (.entry place (.link target))
        else
          let path := Path.ofString target
          onLink (targetStart here path) (path.names ++ rest)

/-- Follows names from a directory through at most the given number of links. -/
def follow (tree : FileTree) (last : Bool) : Nat → Location → List String → Except Obstacle Found
  | 0 => tree.followNames (fun _ _ => .error .tooManyLinks) last
  | links + 1 => tree.followNames (tree.follow last links) last

/-- The most links that are followed along one path. -/
def linkLimit : Nat := 40

/-- The location at which a path starts. -/
def start (workingDirectory : Location) (path : Path) : Location :=
  targetStart workingDirectory path

/-- What a path leads to, a link in last place followed. -/
def find (tree : FileTree) (workingDirectory : Location) (path : Path) : Except Obstacle Found :=
  tree.follow true linkLimit (start workingDirectory path) path.names

/-- What a path leads to, a link in last place not followed. -/
def findLink (tree : FileTree) (workingDirectory : Location) (path : Path) :
    Except Obstacle Found :=
  tree.follow false linkLimit (start workingDirectory path) path.names

/-- How far names resolve from a directory: to a location, or to the location of a link that
leads back to itself, with the names after it. -/
abbrev Resolution := Except Location Location

/-- Resolves names from a location, whether or not anything stands there: a missing name is kept,
and so is a file on the way. The given function resolves the target of a link, and a link that is
being resolved leads back to itself. -/
def resolveNames (tree : FileTree) (onLink : Location → Path → Location → Resolution)
    (active : List Location) : Location → List String → Resolution
  | here, [] => .ok here
  | here, name :: rest =>
    if name = ".." then resolveNames tree onLink active here.dropLast rest
    else
      let place := here ++ [name]
      match tree.entry? place with
      | some (.link target) =>
        if active.contains place then .error (Path.collapse (place ++ rest))
        else
          match onLink place (Path.ofString target) here with
          | .ok there => resolveNames tree onLink active there rest
          | .error there => .error (Path.collapse (there ++ rest))
      | _ => resolveNames tree onLink active place rest

/-- Resolves names with at most the given number of links inside one another. -/
def resolveWithin (tree : FileTree) : Nat → List Location → Location → List String → Resolution
  | 0, active => tree.resolveNames (fun place _ _ => .error place) active
  | depth + 1, active =>
    tree.resolveNames (fun place target here =>
      tree.resolveWithin depth (place :: active) (targetStart here target) target.names) active

/-- The location that a path resolves to, whether or not anything stands there. As many links can
stand inside one another as there are entries. -/
def resolve (tree : FileTree) (workingDirectory : Location) (path : Path) : Resolution :=
  tree.resolveWithin (tree.entries.length + 1) [] (start workingDirectory path) path.names

end FileTree

end SdkCatalog
