import SdkCatalog.Command.Needs
import Std.Time.Format

/-! The program. It gathers what a command line needs to know of the files of the machine, carries
the command line out on them, and brings the changes back to the machine. -/

namespace SdkCatalog.Program

def textOf (place : Location) : String :=
  (Path.absolute place).text

/-- The location that a text leads to on the machine, links followed; none if it leads nowhere. -/
def real? (text : String) : IO (Option Location) := do
  match ← (IO.FS.realPath text).toBaseIO with
  | .ok path => return some (Path.ofString path.toString).names
  | .error _ => return none

/-- The bytes of the regular file at a location; none for a directory. -/
def bytes? (place : Location) : IO (Option (List UInt8)) := do
  match ← (IO.FS.readBinFile (textOf place)).toBaseIO with
  | .ok content => return some content.toList
  | .error _ => return none

/-- The files once the directory at a location is known, and those above it. -/
def knowDirectory (files : Files) (place : Location) : Files :=
  (List.range place.length).foldl (fun files depth => files.put (place.take (depth + 1)) .directory)
    files

/-- Learns what the names lead to from a directory, and which links are on the way. -/
def learn (files : Files) (here : Location) : List String → IO Files
  | [] => return files
  | name :: rest => do
    if name = ".." then learn files here.dropLast rest
    else
      let place := here ++ [name]
      match ← real? (textOf place) with
      | none => return files
      | some target =>
        let files := knowDirectory files target.dropLast
        let files :=
          if target = place then files else files.put place (.link (textOf target))
        match ← bytes? target with
        | some content => return files.put target (.file content)
        | none => learn (knowDirectory files target) target rest

/-- Learns what a path leads to. -/
def learnPath (files : Files) (path : Path) : IO Files :=
  learn files (FileTree.start files.workingDirectory path) path.names

/-- The names in the directory that a path leads to on the machine. -/
def namesIn (files : Files) (path : Path) : IO (List String) := do
  match files.find path with
  | .ok (.entry place .directory) =>
    let directory ← IO.FS.realPath (textOf place)
    return (← directory.readDir).toList.map (·.fileName)
  | _ => return []

/-- Learns what a command line needs to know. -/
def meet (files : Files) : Command.Need → IO Files
  | .way path => learnPath files path
  | .listing directory => do
    let files ← learnPath files directory
    (← namesIn files directory).foldlM (fun files name => learnPath files (directory.child name))
      files

/-- Learns everything that a command line needs to know, besides what was learned before. -/
partial def gather (words : List String) (files : Files) (met : List Command.Need) :
    IO Files := do
  match (Command.Need.ofWords files words).filter (!met.contains ·) with
  | [] => return files
  | needs => gather words (← needs.foldlM meet files) (met ++ needs)

def startFiles : IO Files := do
  let here := (← real? ".").getD []
  let home := (← IO.getEnv "HOME").getD "/"
  return knowDirectory ⟨.empty, here, home⟩ here

/-- Brings what has changed back to the machine. -/
def commit (before after : Files) : IO Unit :=
  after.tree.entries.forM fun (place, entry) => do
    if before.tree.entry? place ≠ some entry then
      match entry with
      | .directory => IO.FS.createDirAll (textOf place)
      | .file content => IO.FS.writeBinFile (textOf place) content.toByteArray
      | .link _ => pure ()

/-- The time of day as files that get the journal show it. -/
def now : IO String := do
  return (← Std.Time.PlainDateTime.now).format "uuuu-MM-dd HH:mm:ss,SSS"

/-- Carries out a command line and answers with its exit status. -/
def run (words : List String) : IO UInt32 := do
  let files ← gather words (← startFiles) []
  let (outcome, session) := (Command.run words).run { files, time := ← now }
  commit files session.files
  IO.eprint session.journal.shown
  match outcome with
  | .exit status output errors =>
    IO.print output
    IO.eprint errors
    return status.toUInt32
  | .failed failure =>
    IO.eprintln failure.message
    return 1

end SdkCatalog.Program

def main (words : List String) : IO UInt32 :=
  SdkCatalog.Program.run words
