import SdkCatalog.Files.Tree
import SdkCatalog.Text.Basic
import SdkCatalog.Text.Quoted
import SdkCatalog.Text.Utf8

/-! Files as a running command sees them, from a working directory and with a home directory: the
questions that can be asked about them, what changes them, and the faults that either runs into. -/

namespace SdkCatalog

/-! ### Faults -/

/-- Why an operation on a path fails. All but the last two are refusals of the system. -/
inductive FileFault where
  | missing (path : String)
  /-- The working directory is asked for, but it has been removed. -/
  | hereMissing
  | alreadyThere (path : String)
  /-- A regular file stands on the way. -/
  | notDirectory (path : String)
  /-- A directory stands where a regular file is asked for. -/
  | isDirectory (path : String)
  | tooManyLinks (path : String)
  /-- A link on the way to a resolved path leads back to itself. -/
  | linkLoop (path : String)
  | nullCharacter
  deriving DecidableEq

namespace FileFault

/-- The wording of a refusal: its number, what it is and the path. -/
def refusal (number : Nat) (what path : String) : String :=
  s!"[Errno {number}] {what}: {Text.quoted path}"

def message : FileFault → String
  | missing path => refusal 2 "No such file or directory" path
  | hereMissing => "[Errno 2] No such file or directory"
  | alreadyThere path => refusal 17 "File exists" path
  | notDirectory path => refusal 20 "Not a directory" path
  | isDirectory path => refusal 21 "Is a directory" path
  | tooManyLinks path => refusal 40 "Too many levels of symbolic links" path
  | linkLoop path => "Symlink loop from " ++ Text.quoted path
  | nullCharacter => "embedded null byte"

def isRefusal : FileFault → Bool
  | linkLoop _ | nullCharacter => false
  | _ => true

end FileFault

/-! ### Reading -/

/-- The files of a machine, seen from a working directory. One that has been removed is at a
location where nothing stands, below a name that no path has. -/
structure Files where
  tree : FileTree
  workingDirectory : Location
  home : String

namespace Files

/-- The fault that an obstacle on the way along a path is. -/
def faultOf (path : Path) : FileTree.Obstacle → FileFault
  | .missing => .missing path.text
  | .notDirectory => .notDirectory path.text
  | .tooManyLinks => .tooManyLinks path.text

/-- What a path leads to, links followed. -/
def find (files : Files) (path : Path) : Except FileFault FileTree.Found :=
  if path.hasNull then .error .nullCharacter
  else (files.tree.find files.workingDirectory path).mapError (faultOf path)

/-- What stands at the end of a path, links followed; nothing if the path leads nowhere. -/
def entry? (files : Files) (path : Path) : Option Entry :=
  match files.find path with
  | .ok (.entry _ entry) => some entry
  | _ => none

def present (files : Files) (path : Path) : Bool :=
  (files.entry? path).isSome

def isFile (files : Files) (path : Path) : Bool :=
  files.entry? path matches some (.file _)

def isDirectory (files : Files) (path : Path) : Bool :=
  files.entry? path matches some .directory

/-- The bytes of the regular file at the end of a path. -/
def bytes (files : Files) (path : Path) : Except FileFault (List UInt8) :=
  match files.find path with
  | .ok (.entry _ (.file content)) => .ok content
  | .ok (.entry _ _) => .error (.isDirectory path.text)
  | .ok (.vacant _) => .error (.missing path.text)
  | .error fault => .error fault

/-- Why a file cannot be read as text. -/
inductive TextFault where
  | file (fault : FileFault)
  | undecodable (fault : Utf8.Fault)
  deriving DecidableEq

def TextFault.message : TextFault → String
  | .file fault => fault.message
  | .undecodable fault => fault.message

/-- The text that the bytes of a file spell, with line breaks unified. -/
def textOf (content : List UInt8) : Except TextFault (List Char) :=
  ((Utf8.decode content).mapError .undecodable).map Text.unifyBreaks

def text (files : Files) (path : Path) : Except TextFault (List Char) := do
  let content ← (files.bytes path).mapError .file
  textOf content

/-- The text of a file without a byte-order mark in front. A file that is nothing but a part of the
mark is empty. -/
def unmarkedText (files : Files) (path : Path) : Except TextFault (List Char) := do
  let content ← (files.bytes path).mapError .file
  if content = [0xEF] ∨ content = [0xEF, 0xBB] then .ok [] else textOf (Utf8.dropMark content)

/-- The names in the directory at the end of a path, in no particular order. -/
def names (files : Files) (path : Path) : List String :=
  match files.find path with
  | .ok (.entry place .directory) => files.tree.namesIn place
  | _ => []

/-- The path with the home directory in the place of a tilde that stands first. Of a name after the
tilde no home directory is known. -/
def expandHome (files : Files) (path : Path) : Option Path :=
  match path.anchor, path.names with
  | .relative, name :: rest =>
    if name = "~" then some ((Path.ofString files.home).join ⟨.relative, rest⟩)
    else if name.toList.head? = some '~' then none
    else some path
  | _, _ => some path

/-- The working directory, unless it has been removed. -/
def here (files : Files) : Except FileFault Path :=
  if files.tree.hasDirectory files.workingDirectory then .ok (.absolute files.workingDirectory)
  else .error .hereMissing

/-- The path starts in a working directory that has been removed. -/
def isStranded (files : Files) (path : Path) : Bool :=
  path.anchor = .relative && !files.tree.hasDirectory files.workingDirectory

/-- The path from the root, without links or dots, that a path resolves to, whether or not anything
stands there. -/
def resolve (files : Files) (path : Path) : Except FileFault Path :=
  if path.hasNull then .error .nullCharacter
  else if files.isStranded path then .error .hereMissing
  else
    let place := match files.tree.resolve files.workingDirectory path with
      | .ok place => place
      | .error place => place
    let resolved := Path.absolute place
    match files.tree.find files.workingDirectory resolved with
    | .error .tooManyLinks => .error (.linkLoop resolved.text)
    | _ => .ok resolved

end Files

/-! ### Writing -/

namespace Files

def put (files : Files) (place : Location) (entry : Entry) : Files :=
  { files with tree := files.tree.put place entry }

/-- Makes the directory that a path names. Whatever stands there, be it a link, is in the way. -/
def makeDirectory (files : Files) (path : Path) : Except FileFault Files :=
  if path.hasNull then .error .nullCharacter
  else
    match files.tree.findLink files.workingDirectory path with
    | .ok (.vacant place) => .ok (files.put place .directory)
    | .ok (.entry _ _) => .error (.alreadyThere path.text)
    | .error obstacle => .error (faultOf path obstacle)

/-- Makes the directory that a path names, unless there is one or a link to one. A missing directory
above it is a fault. -/
def ensureLast (files : Files) (path : Path) : Except FileFault Files :=
  match files.makeDirectory path with
  | .ok made => .ok made
  | .error fault =>
    match fault with
    | .missing _ | .nullCharacter => .error fault
    | _ => if files.isDirectory path then .ok files else .error fault

/-- Makes the directory that a path names and those above it, unless they are there. The path is
tried again once its parents are there, and directories made before a fault stay. -/
def ensureDirectory (files : Files) (path : Path) : Except FileFault Unit × Files :=
  match files.makeDirectory path with
  | .ok made => (.ok (), made)
  | .error fault =>
    match fault with
    | .missing _ =>
      if _h : path.names = [] then (.error fault, files)
      else
        match files.ensureDirectory path.parent with
        | (.ok (), above) =>
          match above.ensureLast path with
          | .ok made => (.ok (), made)
          | .error later => (.error later, above)
        | (.error earlier, above) => (.error earlier, above)
    | .nullCharacter => (.error fault, files)
    | _ => if files.isDirectory path then (.ok (), files) else (.error fault, files)
termination_by path.names.length
decreasing_by
  have := List.length_pos_iff.mpr _h
  simp only [Path.parent, List.length_dropLast]
  omega

/-- The location of the regular file that a path leads to, or where one can be put. -/
def fileLocation (files : Files) (path : Path) : Except FileFault Location :=
  match files.find path with
  | .ok (.vacant place) | .ok (.entry place (.file _)) => .ok place
  | .ok (.entry _ _) => .error (.isDirectory path.text)
  | .error fault => .error fault

/-- Writes a file: one that is there gets new content, and otherwise one is put there. -/
def write (files : Files) (path : Path) (content : List UInt8) : Except FileFault Files :=
  (files.fileLocation path).map fun place => files.put place (.file content)

/-- The bytes of the regular file at a location, none if there is no such file. -/
def contentAt (files : Files) (place : Location) : List UInt8 :=
  match files.tree.entry? place with
  | some (.file content) => content
  | _ => []

/-- Appends to the regular file at a location. -/
def append (files : Files) (place : Location) (content : List UInt8) : Files :=
  files.put place (.file (files.contentAt place ++ content))

/-- The path from the root that a path spells, dots taken back by name and links disregarded. -/
def spelled (files : Files) (path : Path) : Except FileFault Path :=
  match path.anchor with
  | .relative => files.here.map fun here => .absolute (Path.collapse (here.names ++ path.names))
  | anchor => .ok ⟨anchor, Path.collapse path.names⟩

/-- Opens a file for appending: it is put there if there is none. The answer is its location. -/
def openForAppending (files : Files) (path : Path) : Except FileFault (Location × Files) := do
  let place ← files.fileLocation (← files.spelled path)
  return (place, files.append place [])

end Files

end SdkCatalog
